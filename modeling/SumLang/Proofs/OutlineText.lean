import SumLang.Node.Outline
import SumLang.Proofs.FloatingConstant
import SumLang.Proofs.LineText

/-! What a line of an outline shows can be read back from it: words, numbers, variables and
expressions, each up to a character that stops it. -/
namespace SumLang

open Token (IsIdentifier isWordPart)

section Codes

variable {α β : Type}

/-- In front of what stops them, the texts of `a` and `b` differ unless `a` and `b` are the same,
and the rests behind them too. -/
def ToldApart (Stop : List β → Prop) (text : α → List β) (a b : α) : Prop :=
  ∀ r r', Stop r → Stop r' → text a ++ r = text b ++ r' → a = b ∧ r = r'

/-- Texts one behind the other are told apart up to where no text starts. -/
theorem ToldApart.flatMap {Stop End : List β → Prop} {text : α → List β} {as bs : List α}
    (htext : ∀ a ∈ as, ∀ b ∈ bs, ToldApart Stop text a b) (hend : ∀ r, End r → Stop r)
    (hstart : ∀ a, a ∈ as ∨ a ∈ bs → ∀ r, Stop (text a ++ r) ∧ ¬End (text a ++ r)) :
    ToldApart End (List.flatMap text) as bs := by
  induction as generalizing bs with
  | nil =>
    intro r r' hr _ heq
    cases bs with
    | nil => exact ⟨rfl, heq⟩
    | cons b bs =>
      rw [List.flatMap_nil, List.nil_append, List.flatMap_cons, List.append_assoc] at heq
      exact absurd (heq ▸ hr) (hstart b (by simp) _).2
  | cons a as ih =>
    intro r r' hr hr' heq
    cases bs with
    | nil =>
      rw [List.flatMap_nil, List.nil_append, List.flatMap_cons, List.append_assoc] at heq
      exact absurd (heq ▸ hr') (hstart a (by simp) _).2
    | cons b bs =>
      rw [List.flatMap_cons, List.flatMap_cons, List.append_assoc, List.append_assoc] at heq
      have hstop {cs : List α} {r : List β} (hcs : ∀ c ∈ cs, c ∈ a :: as ∨ c ∈ b :: bs)
          (hr : End r) : Stop (cs.flatMap text ++ r) := by
        cases cs with
        | nil => exact hend r hr
        | cons c cs =>
          rw [List.flatMap_cons, List.append_assoc]
          exact (hstart c (hcs c (by simp)) _).1
      obtain ⟨rfl, htail⟩ := htext a (by simp) b (by simp) _ _
        (hstop (fun c hc => .inl (by simp [hc])) hr)
        (hstop (fun c hc => .inr (by simp [hc])) hr') heq
      obtain ⟨rfl, hrest⟩ := ih (fun a ha b hb => htext a (by simp [ha]) b (by simp [hb]))
        (fun c hc => hstart c (hc.imp (List.mem_cons_of_mem _) (List.mem_cons_of_mem _)))
        r r' hr hr' htail
      exact ⟨rfl, hrest⟩

theorem forall_mem_head?_cons {p : β → Bool} {c : β} (h : p c = false) (r : List β) :
    ∀ d ∈ (c :: r).head?, p d = false := by
  rintro d ⟨⟩
  exact h

/-- A longest run of characters of a kind is determined. -/
theorem eq_of_append_of_forall {p : β → Bool} {as bs r r' : List β} (has : ∀ a ∈ as, p a = true)
    (hbs : ∀ b ∈ bs, p b = true) (hr : ∀ c ∈ r.head?, p c = false)
    (hr' : ∀ c ∈ r'.head?, p c = false) (h : as ++ r = bs ++ r') : as = bs ∧ r = r' := by
  have hnone {r : List β} (hr : ∀ c ∈ r.head?, p c = false) : r.takeWhile p = [] := by
    cases r with
    | nil => rfl
    | cons c r => exact List.takeWhile_cons_of_neg (by simp [hr c rfl])
  have htake := congrArg (List.takeWhile p) h
  rw [List.takeWhile_append_of_pos has, List.takeWhile_append_of_pos hbs, hnone hr, hnone hr',
    List.append_nil, List.append_nil] at htake
  rw [htake] at h
  exact ⟨htake, List.append_cancel_left h⟩

end Codes

/-- The text ends, or a character follows that stops names and expressions. -/
def Stops (r : List Char) : Prop :=
  ∀ c ∈ r.head?, c = ' ' ∨ c = ',' ∨ c = ')' ∨ c = '\n'

section Stops

variable {r : List Char}

theorem Stops.isWordPart_eq_false (h : Stops r) : ∀ c ∈ r.head?, isWordPart c = false := by
  intro c hc
  rcases h c hc with rfl | rfl | rfl | rfl <;> rfl

theorem Stops.isNumberChar_eq_false (h : Stops r) : ∀ c ∈ r.head?, isNumberChar c = false := by
  intro c hc
  rcases h c hc with rfl | rfl | rfl | rfl <;> rfl

theorem Stops.head?_ne {c : Char} (h : Stops r)
    (hc : c ≠ ' ' ∧ c ≠ ',' ∧ c ≠ ')' ∧ c ≠ '\n') : r.head? ≠ some c := by
  intro hhead
  rcases h c hhead with rfl | rfl | rfl | rfl <;> simp at hc

theorem stops_of_head? {c : Char} (hc : r.head? = some c)
    (h : c = ' ' ∨ c = ',' ∨ c = ')' ∨ c = '\n') : Stops r := by
  intro d hd
  rw [hc] at hd
  obtain rfl := Option.some.inj hd
  exact h

theorem stops_cons {c : Char} (h : c = ' ' ∨ c = ',' ∨ c = ')' ∨ c = '\n') : Stops (c :: r) :=
  stops_of_head? rfl h

end Stops

section Separated

variable {α : Type} {text : α → String} {as bs : List α} {r r' : List Char}

theorem toList_intercalate_cons (sep : String) (text : α → String) (a : α) (as : List α) :
    (sep.intercalate ((a :: as).map text)).toList =
      (text a).toList ++ as.flatMap fun a => sep.toList ++ (text a).toList := by
  induction as generalizing a with
  | nil => simp
  | cons b as ih =>
    have hne : (b :: as).map text ≠ [] := by simp
    rw [List.map_cons, String.intercalate_cons_of_ne_nil hne, String.toList_append,
      String.toList_append, ih, List.flatMap_cons, List.append_assoc, List.append_assoc]

/-- What stands between commas is told apart up to the closing parenthesis. -/
theorem separated_inj (hitem : ∀ a ∈ as, ∀ b ∈ bs, ToldApart Stops (fun a => (text a).toList) a b)
    (hfirst : ∀ a, a ∈ as ∨ a ∈ bs → ∃ c cs, (text a).toList = c :: cs ∧ c ≠ ')')
    (h : (", ".intercalate (as.map text)).toList ++ ')' :: r =
      (", ".intercalate (bs.map text)).toList ++ ')' :: r') : as = bs ∧ r = r' := by
  have hclose {a : α} {s t : List Char} (ha : a ∈ as ∨ a ∈ bs) :
      ')' :: s ≠ (text a).toList ++ t := by
    obtain ⟨c, cs, hcs, hc⟩ := hfirst a ha
    rw [hcs]
    exact fun heq => hc (List.cons.inj heq).1.symm
  have hstop (cs : List α) (s : List Char) :
      Stops (cs.flatMap (fun a => ", ".toList ++ (text a).toList) ++ ')' :: s) := by
    cases cs with
    | nil => exact stops_cons (by simp)
    | cons => exact stops_of_head? (c := ',') rfl (by simp)
  cases as with
  | nil =>
    cases bs with
    | nil => exact ⟨rfl, (List.cons.inj h).2⟩
    | cons b bs =>
      rw [toList_intercalate_cons, List.append_assoc] at h
      exact absurd h (hclose (by simp))
  | cons a as =>
    cases bs with
    | nil =>
      rw [toList_intercalate_cons, List.append_assoc] at h
      exact absurd h.symm (hclose (by simp))
    | cons b bs =>
      rw [toList_intercalate_cons, toList_intercalate_cons, List.append_assoc,
        List.append_assoc] at h
      obtain ⟨rfl, htail⟩ := hitem a (by simp) b (by simp) _ _ (hstop as r) (hstop bs r') h
      have hitems : ToldApart (fun r => r.head? = some ')')
          (List.flatMap fun a => ", ".toList ++ (text a).toList) as bs := by
        refine ToldApart.flatMap ?_ (fun s hs => stops_of_head? hs (by simp)) fun a _ s =>
          ⟨stops_of_head? (c := ',') rfl (by simp), by simp⟩
        intro a ha b hb s s' hs hs' heq
        have heq := (List.cons.inj (List.cons.inj heq).2).2
        exact hitem a (by simp [ha]) b (by simp [hb]) s s' hs hs' heq
      obtain ⟨rfl, hrest⟩ := hitems _ _ rfl rfl htail
      exact ⟨rfl, (List.cons.inj hrest).2⟩

end Separated

section Words

variable {x y : String} {v w : Variable} {vs ws : List Variable} {r r' : List Char}

structure IsWord (x : String) : Prop where
  first : ∃ c cs, x.toList = c :: cs ∧ c.isAlpha = true
  parts : ∀ c ∈ x.toList, isWordPart c = true

theorem isWord_of_isIdentifier (h : IsIdentifier x) : IsWord x := by
  obtain ⟨c, cs, hx, hc, -⟩ := h.exists_word
  exact ⟨⟨c, cs, hx, hc⟩, fun d hd => h.isWordPart_of_mem hd⟩

theorem isWord_of_isTypeName (h : IsTypeName x) : IsWord x := by
  rcases h with hbuiltin | hword
  · simp only [isBuiltinType, Bool.or_eq_true, beq_iff_eq] at hbuiltin
    rcases hbuiltin with (((rfl | rfl) | rfl) | rfl) | rfl
    all_goals exact ⟨⟨_, _, rfl, rfl⟩, by simp [isWordPart]⟩
  · exact isWord_of_isIdentifier hword

theorem IsWord.inj (hx : IsWord x) (hy : IsWord y) (hr : ∀ c ∈ r.head?, isWordPart c = false)
    (hr' : ∀ c ∈ r'.head?, isWordPart c = false) (h : x.toList ++ r = y.toList ++ r') :
    x = y ∧ r = r' := by
  obtain ⟨htext, hrest⟩ := eq_of_append_of_forall hx.parts hy.parts hr hr' h
  exact ⟨String.toList_inj.1 htext, hrest⟩

theorem Variable.toList_outline (v : Variable) :
    v.outline.toList = v.name.toList ++ ':' :: ' ' :: v.type.toList := by
  simp [Variable.outline]

theorem Variable.outline_inj (hv : WellFormed.Typed v) (hw : WellFormed.Typed w) (hr : Stops r)
    (hr' : Stops r') (h : v.outline.toList ++ r = w.outline.toList ++ r') :
    v.name = w.name ∧ v.type = w.type ∧ r = r' := by
  rw [Variable.toList_outline, Variable.toList_outline, List.append_assoc, List.append_assoc] at h
  obtain ⟨hname, htail⟩ := (isWord_of_isIdentifier hv.name).inj (isWord_of_isIdentifier hw.name)
    (forall_mem_head?_cons rfl _) (forall_mem_head?_cons rfl _) h
  obtain ⟨htype, hrest⟩ := (isWord_of_isTypeName hv.type).inj (isWord_of_isTypeName hw.type)
    hr.isWordPart_eq_false hr'.isWordPart_eq_false (List.cons.inj (List.cons.inj htail).2).2
  exact ⟨hname, htype, hrest⟩

theorem toldApart_formal (hv : WellFormed.Formal v) (hw : WellFormed.Formal w) :
    ToldApart Stops (fun v => v.outline.toList) v w := by
  intro r r' hr hr' h
  obtain ⟨hname, htype, hrest⟩ := Variable.outline_inj hv.toTyped hw.toTyped hr hr' h
  have hmutability := hv.immutable.trans hw.immutable.symm
  cases v
  cases w
  cases hname
  cases htype
  cases hmutability
  exact ⟨rfl, hrest⟩

theorem outlines_inj (hvs : ∀ v ∈ vs, WellFormed.Formal v) (hws : ∀ w ∈ ws, WellFormed.Formal w)
    (h : (Variable.outlines vs).toList ++ ')' :: r = (Variable.outlines ws).toList ++ ')' :: r') :
    vs = ws ∧ r = r' := by
  refine separated_inj (fun v hv w hw => toldApart_formal (hvs v hv) (hws w hw)) ?_ h
  intro v hv
  obtain ⟨c, cs, hname, hc⟩ := (isWord_of_isIdentifier (hv.elim (hvs v) (hws v)).name).first
  rw [Variable.toList_outline, hname]
  refine ⟨c, _, rfl, ?_⟩
  rintro rfl
  cases hc

end Words

namespace Double

variable {cs mark : List Char} {n : ℕ} {e k : ℤ}

theorem IsDigits.isNumberChar (h : IsDigits cs) : ∀ c ∈ cs, isNumberChar c = true :=
  fun c hc => isNumberChar_of_isDigit (h.2 c hc)

theorem ExponentPart.isNumberChar (h : ExponentPart mark e) :
    ∀ c ∈ mark, isNumberChar c = true := by
  cases h with
  | absent => simp
  | plain hds => exact List.forall_mem_cons.2 ⟨rfl, hds.isNumberChar⟩
  | plus hds => exact List.forall_mem_cons.2 ⟨rfl, List.forall_mem_cons.2 ⟨rfl, hds.isNumberChar⟩⟩
  | minus hds => exact List.forall_mem_cons.2 ⟨rfl, List.forall_mem_cons.2 ⟨rfl, hds.isNumberChar⟩⟩

theorem FloatingConstant.isNumberChar (h : FloatingConstant cs n k) :
    ∀ c ∈ cs, isNumberChar c = true := by
  cases h with
  | point hwhole hfraction hpart =>
    rw [List.forall_mem_append, List.forall_mem_cons, List.forall_mem_append]
    exact ⟨hwhole.isNumberChar, rfl, hfraction.isNumberChar, hpart.isNumberChar⟩
  | exponent hwhole _ hpart =>
    exact List.forall_mem_append.2 ⟨hwhole.isNumberChar, hpart.isNumberChar⟩

/-- A constant has more than digits. -/
theorem FloatingConstant.exists_mark (h : FloatingConstant cs n k) :
    ∃ c ∈ cs, c.isDigit = false := by
  cases h with
  | point _ _ _ => exact ⟨'.', by simp, rfl⟩
  | exponent _ hne hpart =>
    obtain ⟨ds, rfl⟩ := hpart.exists_cons hne
    exact ⟨'e', by simp, rfl⟩

end Double

/-- The expressions that an outline shows in full: floats are finite and strings have no quote. -/
inductive Shown : Node → Prop where
  | integer {n : Nat} : Shown (.integer n)
  | float {m : Nat} {q : Int} : Double.Canonical m q → Shown (.float (.finite false m q))
  | string {s : String} : '"' ∉ s.toList → Shown (.string s)
  | boolean {b : Bool} : Shown (.boolean b)
  | name {x : String} : IsIdentifier x → Shown (.name x)
  | call {f : String} {args : List Node} : IsIdentifier f → (∀ a ∈ args, Shown a) →
    Shown (.call f args)
  | binary {a b : Node} {op : String} : op ∈ ["+", "-", "*", "/"] → Shown a → Shown b →
    Shown (.binary a op b)
  | construct {enum case : String} {args : List Node} : IsIdentifier enum → IsIdentifier case →
    (∀ a ∈ args, Shown a) → Shown (.construct enum case args)

inductive Form where
  | number
  | string
  | word
  | call
  | operation
  | construction

def Node.form : Node → Form
  | .integer _ | .float _ => .number
  | .string _ => .string
  | .call _ _ => .call
  | .binary _ _ _ => .operation
  | .construct _ _ _ => .construction
  | _ => .word

/-- The form of the expression at the start of a text, from its first character and, behind a word,
from the character that follows. -/
def Form.read (cs : List Char) : Form :=
  if cs.head?.any Char.isDigit then .number
  else if cs.head? = some '"' then .string
  else if cs.head? = some '(' then .operation
  else if (cs.dropWhile isWordPart).head? = some '(' then .call
  else if (cs.dropWhile isWordPart).head? = some '.' then .construction
  else .word

section Forms

variable {e e' : Node} {r r' : List Char}

attribute [local simp] Node.inline

theorem inlineAll_eq_map (ns : List Node) : Node.inlineAll ns = ns.map Node.inline := by
  induction ns with
  | nil => rfl
  | cons n ns ih => rw [Node.inlineAll, ih, List.map_cons]

theorem Form.read_word {x : String} (hx : IsWord x) (hr : ∀ c ∈ r.head?, isWordPart c = false) :
    Form.read (x.toList ++ r) = if r.head? = some '(' then .call
      else if r.head? = some '.' then .construction else .word := by
  obtain ⟨c, cs, htext, hc⟩ := hx.first
  have hdrop : (x.toList ++ r).dropWhile isWordPart = r := by
    rw [List.dropWhile_append_of_pos hx.parts]
    cases r with
    | nil => rfl
    | cons d r => exact List.dropWhile_cons_of_neg (by simp [hr d rfl])
  have hhead : (x.toList ++ r).head? = some c := by rw [htext, List.cons_append, List.head?_cons]
  have hdigit : c.isDigit = false := by
    by_contra h
    rw [Token.not_isAlpha_of_isDigit (by simpa using h)] at hc
    cases hc
  have hquote : c ≠ '"' := by
    rintro rfl
    cases hc
  have hopen : c ≠ '(' := by
    rintro rfl
    cases hc
  rw [Form.read, hdrop, hhead]
  simp [hdigit, hquote, hopen]

theorem inline_call (f : String) (args : List Node) :
    (Node.call f args).inline.toList =
      f.toList ++ '(' :: ((", ".intercalate (args.map Node.inline)).toList ++ [')']) := by
  simp [inlineAll_eq_map]

theorem inline_construct (enum case : String) (args : List Node) :
    (Node.construct enum case args).inline.toList = enum.toList ++ '.' :: (case.toList ++
      '(' :: ((", ".intercalate (args.map Node.inline)).toList ++ [')'])) := by
  simp [inlineAll_eq_map]

theorem inline_binary (a b : Node) (op : String) :
    (Node.binary a op b).inline.toList =
      '(' :: (a.inline.toList ++ ' ' :: (op.toList ++ ' ' :: (b.inline.toList ++ [')']))) := by
  simp

theorem inline_string (s : String) :
    (Node.string s).inline.toList = '"' :: (s.toList ++ ['"']) := by
  simp

theorem isWord_boolean (b : Bool) : IsWord (if b then "true" else "false") := by
  cases b with
  | false => exact ⟨⟨_, _, rfl, rfl⟩, by simp [isWordPart]⟩
  | true => exact ⟨⟨_, _, rfl, rfl⟩, by simp [isWordPart]⟩

theorem not_isIdentifier_boolean (b : Bool) : ¬IsIdentifier (if b then "true" else "false") := by
  intro h
  cases b with
  | false => cases (Token.Spells.word_of_isAlpha h rfl).2.1
  | true => cases (Token.Spells.word_of_isAlpha h rfl).2.1

theorem inline_integer (n : Nat) : (Node.integer n).inline.toList = Nat.toDigits 10 n :=
  Nat.toList_repr

/-- The text of a number is made of the characters of numbers, and starts with a digit. -/
theorem Shown.number (h : Shown e) (hform : e.form = .number) :
    (∀ c ∈ e.inline.toList, isNumberChar c = true) ∧
      ∃ d ds, e.inline.toList = d :: ds ∧ d.isDigit = true := by
  cases h with
  | @integer n =>
    obtain ⟨d, ds, htext⟩ := List.exists_cons_of_ne_nil (Double.isDigits_toDigits n).1
    rw [inline_integer]
    exact ⟨isNumberChar_toDigits n, d, ds, htext,
      (Double.isDigits_toDigits n).2 d (by simp [htext])⟩
  | float hc =>
    obtain ⟨_, _, hconstant, -⟩ := Double.exists_floatingConstant_toText hc
    rw [Node.inline]
    exact ⟨hconstant.isNumberChar, hconstant.exists_digit⟩
  | _ => cases hform

theorem IsWord.exists_cons {x : String} (hx : IsWord x) (t : List Char) :
    ∃ c cs, x.toList ++ t = c :: cs ∧ c ≠ ')' := by
  obtain ⟨c, cs, hcs, hc⟩ := hx.first
  refine ⟨c, cs ++ t, by rw [hcs, List.cons_append], ?_⟩
  rintro rfl
  cases hc

/-- No expression starts with a closing parenthesis. -/
theorem Shown.exists_cons (h : Shown e) : ∃ c cs, e.inline.toList = c :: cs ∧ c ≠ ')' := by
  have hnumber (hform : e.form = .number) : ∃ c cs, e.inline.toList = c :: cs ∧ c ≠ ')' := by
    obtain ⟨d, ds, htext, hd⟩ := (h.number hform).2
    exact ⟨d, ds, htext, Double.ne_of_isDigit hd rfl⟩
  cases h with
  | integer => exact hnumber rfl
  | float hc => exact hnumber rfl
  | string hs => exact ⟨_, _, inline_string _, by simp⟩
  | boolean => simpa using (isWord_boolean _).exists_cons []
  | name hx => simpa using (isWord_of_isIdentifier hx).exists_cons []
  | call hf hargs =>
    rw [inline_call]
    exact (isWord_of_isIdentifier hf).exists_cons _
  | binary hop ha hb => exact ⟨_, _, inline_binary _ _ _, by simp⟩
  | construct henum hcase hargs =>
    rw [inline_construct]
    exact (isWord_of_isIdentifier henum).exists_cons _

theorem Shown.read_form (h : Shown e) (hr : Stops r) :
    Form.read (e.inline.toList ++ r) = e.form := by
  have hopen := hr.head?_ne (c := '(') (by decide)
  have hpoint := hr.head?_ne (c := '.') (by decide)
  have hnumber (hform : e.form = .number) : Form.read (e.inline.toList ++ r) = e.form := by
    obtain ⟨d, ds, htext, hd⟩ := (h.number hform).2
    rw [htext, hform]
    simp [Form.read, hd]
  cases h with
  | integer => exact hnumber rfl
  | float hc => exact hnumber rfl
  | string hs =>
    rw [inline_string]
    rfl
  | boolean =>
    rw [Node.inline, Form.read_word (isWord_boolean _) hr.isWordPart_eq_false, if_neg hopen,
      if_neg hpoint]
    rfl
  | name hx =>
    rw [Node.inline, Form.read_word (isWord_of_isIdentifier hx) hr.isWordPart_eq_false,
      if_neg hopen, if_neg hpoint]
    rfl
  | call hf hargs =>
    rw [inline_call, List.append_assoc, List.cons_append,
      Form.read_word (isWord_of_isIdentifier hf) (forall_mem_head?_cons rfl _)]
    rfl
  | binary hop ha hb =>
    rw [inline_binary]
    rfl
  | construct henum hcase hargs =>
    rw [inline_construct, List.append_assoc, List.cons_append,
      Form.read_word (isWord_of_isIdentifier henum) (forall_mem_head?_cons rfl _)]
    rfl

/-- Numbers with the same text are the same. -/
theorem Shown.eq_of_number (h : Shown e) (h' : Shown e') (hform : e.form = .number)
    (hform' : e'.form = .number) (htext : e.inline.toList = e'.inline.toList) : e = e' := by
  have hmixed {n m : Nat} {q : Int} (hc : Double.Canonical m q) :
      Nat.toDigits 10 n ≠ (Double.finite false m q).toText.toList := by
    intro heq
    obtain ⟨_, _, hconstant, -⟩ := Double.exists_floatingConstant_toText hc
    obtain ⟨c, hmem, hc⟩ := hconstant.exists_mark
    rw [(Double.isDigits_toDigits n).2 c (heq ▸ hmem)] at hc
    cases hc
  cases h with
  | @integer n =>
    cases h' with
    | @integer n' =>
      rw [inline_integer, inline_integer] at htext
      have hvalue := digitsValue_toDigits n
      rw [htext, digitsValue_toDigits] at hvalue
      rw [hvalue]
    | float hc' =>
      rw [inline_integer, Node.inline] at htext
      exact absurd htext (hmixed hc')
    | _ => cases hform'
  | float hc =>
    cases h' with
    | integer =>
      rw [inline_integer, Node.inline] at htext
      exact absurd htext.symm (hmixed hc)
    | float hc' =>
      rw [Node.inline, Node.inline, String.toList_inj] at htext
      rw [Double.toText_injective hc hc' htext]
    | _ => cases hform'
  | _ => cases hform

theorem Shown.number_inj (h : Shown e) (h' : Shown e') (hform : e.form = .number)
    (hform' : e'.form = .number) (hr : Stops r) (hr' : Stops r')
    (heq : e.inline.toList ++ r = e'.inline.toList ++ r') : e = e' ∧ r = r' := by
  obtain ⟨htext, hrest⟩ := eq_of_append_of_forall (h.number hform).1 (h'.number hform').1
    hr.isNumberChar_eq_false hr'.isNumberChar_eq_false heq
  exact ⟨h.eq_of_number h' hform hform' htext, hrest⟩

theorem Shown.word (h : Shown e) (hform : e.form = .word) : IsWord e.inline := by
  cases h with
  | boolean => exact isWord_boolean _
  | name hx => exact isWord_of_isIdentifier hx
  | _ => cases hform

/-- Names and truth values with the same text are the same. -/
theorem Shown.eq_of_word (h : Shown e) (h' : Shown e') (hform : e.form = .word)
    (hform' : e'.form = .word) (htext : e.inline = e'.inline) : e = e' := by
  cases h with
  | @boolean b =>
    cases h' with
    | @boolean b' => cases b <;> cases b' <;> simp at htext ⊢
    | name hx =>
      rw [Node.inline, Node.inline] at htext
      exact absurd (htext ▸ hx) (not_isIdentifier_boolean b)
    | _ => cases hform'
  | name hx =>
    cases h' with
    | @boolean b =>
      rw [Node.inline, Node.inline] at htext
      exact absurd (htext ▸ hx) (not_isIdentifier_boolean b)
    | name hx' =>
      rw [Node.inline, Node.inline] at htext
      rw [htext]
    | _ => cases hform'
  | _ => cases hform

theorem Shown.word_inj (h : Shown e) (h' : Shown e') (hform : e.form = .word)
    (hform' : e'.form = .word) (hr : Stops r) (hr' : Stops r')
    (heq : e.inline.toList ++ r = e'.inline.toList ++ r') : e = e' ∧ r = r' := by
  obtain ⟨htext, hrest⟩ := (h.word hform).inj (h'.word hform') hr.isWordPart_eq_false
    hr'.isWordPart_eq_false heq
  exact ⟨h.eq_of_word h' hform hform' htext, hrest⟩

/-- The text of an expression tells its form. -/
theorem Shown.form_eq (h : Shown e) (h' : Shown e') (hr : Stops r) (hr' : Stops r')
    (heq : e.inline.toList ++ r = e'.inline.toList ++ r') : e.form = e'.form := by
  rw [← h.read_form hr, ← h'.read_form hr', heq]

theorem string_inj {s s' : String} (hs : '"' ∉ s.toList) (hs' : '"' ∉ s'.toList)
    (heq : s.toList ++ '"' :: r = s'.toList ++ '"' :: r') : s = s' ∧ r = r' := by
  have hplain {t : String} (ht : '"' ∉ t.toList) : ∀ c ∈ t.toList, (c != '"') = true := by
    intro c hc
    rw [bne_iff_ne]
    rintro rfl
    exact ht hc
  obtain ⟨htext, hrest⟩ := eq_of_append_of_forall (hplain hs) (hplain hs')
    (forall_mem_head?_cons rfl _) (forall_mem_head?_cons rfl _) heq
  exact ⟨String.toList_inj.1 htext, (List.cons.inj hrest).2⟩

theorem operator_inj {op op' : String} (hop : op ∈ ["+", "-", "*", "/"])
    (hop' : op' ∈ ["+", "-", "*", "/"]) (heq : op.toList ++ ' ' :: r = op'.toList ++ ' ' :: r') :
    op = op' ∧ r = r' := by
  have hblank {op : String} (hop : op ∈ ["+", "-", "*", "/"]) :
      ∀ c ∈ op.toList, (c != ' ') = true := by
    simp only [List.mem_cons, List.not_mem_nil, or_false] at hop
    rcases hop with rfl | rfl | rfl | rfl <;> simp
  obtain ⟨htext, htail⟩ := eq_of_append_of_forall (hblank hop) (hblank hop')
    (forall_mem_head?_cons rfl _) (forall_mem_head?_cons rfl _) heq
  exact ⟨String.toList_inj.1 htext, (List.cons.inj htail).2⟩

/-- A word and what is in parentheses behind it. -/
theorem application_inj {f f' : String} {args args' : List Node} (hf : IsIdentifier f)
    (hf' : IsIdentifier f') (hargs : ∀ a ∈ args, Shown a) (hargs' : ∀ a ∈ args', Shown a)
    (hitem : ∀ a ∈ args, ∀ {b}, Shown b → ToldApart Stops (fun e => e.inline.toList) a b)
    (h : f.toList ++ '(' :: ((", ".intercalate (args.map Node.inline)).toList ++ ')' :: r) =
      f'.toList ++ '(' :: ((", ".intercalate (args'.map Node.inline)).toList ++ ')' :: r')) :
    f = f' ∧ args = args' ∧ r = r' := by
  obtain ⟨hname, htail⟩ := (isWord_of_isIdentifier hf).inj (isWord_of_isIdentifier hf')
    (forall_mem_head?_cons rfl _) (forall_mem_head?_cons rfl _) h
  obtain ⟨hargs, hrest⟩ := separated_inj (fun a ha b hb => hitem a ha (hargs' b hb))
    (fun a ha => (ha.elim (hargs a) (hargs' a)).exists_cons) (List.cons.inj htail).2
  exact ⟨hname, hargs, hrest⟩

/-- The text of an expression tells the expression. -/
theorem Shown.toldApart (h : Shown e) (h' : Shown e') :
    ToldApart Stops (fun e => e.inline.toList) e e' := by
  induction h generalizing e' with
  | integer =>
    intro r r' hr hr' heq
    exact number_inj .integer h' rfl (form_eq .integer h' hr hr' heq).symm hr hr' heq
  | float hc =>
    intro r r' hr hr' heq
    exact number_inj (.float hc) h' rfl (form_eq (.float hc) h' hr hr' heq).symm hr hr' heq
  | boolean =>
    intro r r' hr hr' heq
    exact word_inj .boolean h' rfl (form_eq .boolean h' hr hr' heq).symm hr hr' heq
  | name hx =>
    intro r r' hr hr' heq
    exact word_inj (.name hx) h' rfl (form_eq (.name hx) h' hr hr' heq).symm hr hr' heq
  | string hs =>
    intro r r' hr hr' heq
    have hform := form_eq (.string hs) h' hr hr' heq
    cases h' with
    | string hs' =>
      simp only [inline_string, List.cons_append, List.append_assoc, List.nil_append] at heq
      obtain ⟨rfl, hrest⟩ := string_inj hs hs' (List.cons.inj heq).2
      exact ⟨rfl, hrest⟩
    | _ => cases hform
  | call hf hargs ih =>
    intro r r' hr hr' heq
    have hform := form_eq (.call hf hargs) h' hr hr' heq
    cases h' with
    | call hf' hargs' =>
      simp only [inline_call, List.cons_append, List.append_assoc, List.nil_append] at heq
      obtain ⟨rfl, rfl, hrest⟩ := application_inj hf hf' hargs hargs' ih heq
      exact ⟨rfl, hrest⟩
    | _ => cases hform
  | binary hop ha hb iha ihb =>
    intro r r' hr hr' heq
    have hform := form_eq (.binary hop ha hb) h' hr hr' heq
    cases h' with
    | binary hop' ha' hb' =>
      simp only [inline_binary, List.cons_append, List.append_assoc, List.nil_append] at heq
      obtain ⟨rfl, hop_tail⟩ := iha ha' _ _ (stops_cons (.inl rfl)) (stops_cons (.inl rfl))
        (List.cons.inj heq).2
      obtain ⟨rfl, hb_tail⟩ := operator_inj hop hop' (List.cons.inj hop_tail).2
      obtain ⟨rfl, hclose⟩ := ihb hb' _ _ (stops_cons (by simp)) (stops_cons (by simp)) hb_tail
      exact ⟨rfl, (List.cons.inj hclose).2⟩
    | _ => cases hform
  | construct henum hcase hargs ih =>
    intro r r' hr hr' heq
    have hform := form_eq (.construct henum hcase hargs) h' hr hr' heq
    cases h' with
    | construct henum' hcase' hargs' =>
      simp only [inline_construct, List.cons_append, List.append_assoc, List.nil_append] at heq
      obtain ⟨rfl, htail⟩ := (isWord_of_isIdentifier henum).inj (isWord_of_isIdentifier henum')
        (forall_mem_head?_cons rfl _) (forall_mem_head?_cons rfl _) heq
      obtain ⟨rfl, rfl, hrest⟩ := application_inj hcase hcase' hargs hargs' ih
        (List.cons.inj htail).2
      exact ⟨rfl, hrest⟩
    | _ => cases hform

end Forms

end SumLang
