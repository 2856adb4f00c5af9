import SumLang.Proofs.ProgramLayout

/-! The texts of lines of code. Whatever stands in a program, the text of a line has no line end in
it, starts with a character that neither indents it nor closes a block, and ends in an opening brace
only where a block is opened. -/
namespace SumLang

open Token (IsIdentifier isWordPart)

def OneLine (t : String) : Prop := '\n' ∉ t.toList

instance (t : String) : Decidable (OneLine t) := inferInstanceAs (Decidable (_ ∉ _))

def isIndentation (c : Char) : Bool := c == ' ' || c == '\t'

/-- A text that a line may start with. -/
structure StartsLine (t : String) : Prop where
  oneLine : OneLine t
  first : t.toList.head?.any (fun c => !isIndentation c && c != '\x7d') = true

instance (t : String) : Decidable (StartsLine t) :=
  decidable_of_iff (OneLine t ∧ _) ⟨fun h => ⟨h.1, h.2⟩, fun h => ⟨h.oneLine, h.first⟩⟩

section Texts

variable {t u : String}

theorem OneLine.append (ht : OneLine t) (hu : OneLine u) : OneLine (t ++ u) := by
  unfold OneLine at *
  simp [ht, hu]

theorem StartsLine.append (ht : StartsLine t) (hu : OneLine u) : StartsLine (t ++ u) := by
  refine ⟨ht.oneLine.append hu, ?_⟩
  have hfirst := ht.first
  cases hlist : t.toList with
  | nil => simp [hlist] at hfirst
  | cons c cs => simpa [hlist] using hfirst

theorem not_mem_intercalate {c : Char} {sep : String} {ts : List String} (hsep : c ∉ sep.toList)
    (h : ∀ t ∈ ts, c ∉ t.toList) : c ∉ (sep.intercalate ts).toList := by
  induction ts with
  | nil => simp
  | cons t ts ih =>
    obtain ⟨ht, hts⟩ := List.forall_mem_cons.1 h
    cases ts with
    | nil => rwa [String.intercalate_singleton]
    | cons u us =>
      rw [String.intercalate_cons_of_ne_nil (by simp), String.toList_append, String.toList_append]
      exact fun hmem => (List.mem_append.1 hmem).elim
        (fun hmem => (List.mem_append.1 hmem).elim ht hsep) (ih hts)

theorem oneLine_intercalate {sep : String} {ts : List String} (hsep : OneLine sep)
    (h : ∀ t ∈ ts, OneLine t) : OneLine (sep.intercalate ts) :=
  not_mem_intercalate hsep h

theorem getLast?_append_of_eq_some (t : String) {u : String} {c : Char}
    (h : u.toList.getLast? = some c) : (t ++ u).toList.getLast? = some c := by
  rw [String.toList_append, List.getLast?_append, h]
  rfl

/-- A text of characters among which there are no blanks and no closing braces. -/
theorem startsLine_of_forall {p : Char → Bool}
    (hp : p '\n' = false ∧ p ' ' = false ∧ p '\t' = false ∧ p '\x7d' = false)
    (hne : t.toList ≠ []) (h : ∀ c ∈ t.toList, p c = true) : StartsLine t := by
  obtain ⟨c, cs, hlist⟩ := List.exists_cons_of_ne_nil hne
  refine ⟨fun hmem => by simpa [hp.1] using h '\n' hmem, ?_⟩
  have hc : p c = true := h c (by simp [hlist])
  have hother {d : Char} (hd : p d = false) : c ≠ d := by
    rintro rfl
    simp [hd] at hc
  simp [hlist, isIndentation, hother hp.2.1, hother hp.2.2.1, hother hp.2.2.2]

theorem startsLine_of_isIdentifier {x : String} (h : IsIdentifier x) : StartsLine x := by
  obtain ⟨c, cs, hx, -⟩ := h.exists_word
  exact startsLine_of_forall (by decide) (by simp [hx]) fun d hd => h.isWordPart_of_mem hd

theorem startsLine_spellType (d : Dialect) {type : String} (h : IsTypeName type) :
    StartsLine (d.spellType type) := by
  unfold Dialect.spellType
  split
  · cases d <;> exact by decide
  · exact by decide
  · exact by decide
  · exact by decide
  · exact by decide
  · refine startsLine_of_isIdentifier (h.resolve_left ?_)
    simp_all [isBuiltinType]

end Texts

section Numbers

def isNumberChar (c : Char) : Bool := c.isDigit || c == '.' || c == 'e' || c == '+' || c == '-'

theorem startsLine_of_isNumberChar {t : String} (hne : t.toList ≠ [])
    (h : ∀ c ∈ t.toList, isNumberChar c = true) : StartsLine t :=
  startsLine_of_forall (by decide) hne h

theorem isNumberChar_of_isDigit {c : Char} (h : c.isDigit = true) : isNumberChar c = true := by
  simp [isNumberChar, h]

theorem isNumberChar_toDigits (n : Nat) : ∀ c ∈ Nat.toDigits 10 n, isNumberChar c = true :=
  fun _ hc => isNumberChar_of_isDigit (Nat.isDigit_of_mem_toDigits (by decide) (by decide) hc)

theorem startsLine_natural (n : Nat) : StartsLine (toString (n : Int)) := by
  have htext : (toString (n : Int)).toList = Nat.toDigits 10 n := Nat.toList_repr
  refine startsLine_of_isNumberChar ?_ ?_
  · rw [htext]
    exact Nat.toDigits_ne_nil
  · rw [htext]
    exact isNumberChar_toDigits n

namespace Double

theorem isNumberChar_zeros (n : Nat) : ∀ c ∈ zeros n, isNumberChar c = true := by
  intro c hc
  obtain rfl := List.eq_of_mem_replicate hc
  decide

theorem isNumberChar_significantDigits (n : Nat) :
    ∀ c ∈ significantDigits n, isNumberChar c = true := by
  intro c hc
  dsimp only [significantDigits] at hc
  split at hc
  · obtain rfl := List.mem_singleton.1 hc
    decide
  · have hsub := (List.dropWhile_sublist (· == '0') (l := (Nat.toDigits 10 n).reverse)).reverse
    exact isNumberChar_toDigits n c (by simpa using hsub.subset hc)

theorem isNumberChar_positional {ds : List Char} (h : ∀ c ∈ ds, isNumberChar c = true) (e : Int) :
    positional ds e ≠ [] ∧ ∀ c ∈ positional ds e, isNumberChar c = true := by
  have hpoint : isNumberChar '.' = true := by decide
  have hzero : isNumberChar '0' = true := by decide
  dsimp only [positional]
  split
  · simp only [List.cons_append, List.forall_mem_cons, List.forall_mem_append]
    exact ⟨by simp, hzero, hpoint, isNumberChar_zeros _, h⟩
  split
  · simp only [List.forall_mem_append, List.forall_mem_cons]
    exact ⟨by simp, ⟨h, isNumberChar_zeros _⟩, hpoint, hzero, by simp⟩
  · simp only [List.forall_mem_append, List.forall_mem_cons]
    exact ⟨by simp, fun c hc => h c (List.mem_of_mem_take hc), hpoint,
      fun c hc => h c (List.mem_of_mem_drop hc)⟩

theorem isNumberChar_scientific {ds : List Char} (h : ∀ c ∈ ds, isNumberChar c = true)
    (width : Nat) (e : Int) :
    scientific width ds e ≠ [] ∧ ∀ c ∈ scientific width ds e, isNumberChar c = true := by
  have hsign : isNumberChar (if e < 0 then '-' else '+') = true := by
    split <;> decide
  dsimp only [scientific]
  simp only [List.forall_mem_append, List.forall_mem_cons]
  refine ⟨by simp, ⟨?_, by decide, hsign, isNumberChar_zeros _⟩, isNumberChar_toDigits _⟩
  split
  · exact List.forall_mem_singleton.2 (by decide)
  · exact h
  · obtain ⟨hd, hds⟩ := List.forall_mem_cons.1 h
    exact List.forall_mem_cons.2 ⟨hd, List.forall_mem_cons.2 ⟨by decide, hds⟩⟩

theorem isNumberChar_write (n : NumberStyle) (d : Decimal) :
    d.write n ≠ [] ∧ ∀ c ∈ d.write n, isNumberChar c = true := by
  have hdigits := isNumberChar_significantDigits d.digits
  dsimp only [Decimal.write]
  split
  · exact isNumberChar_positional hdigits _
  · exact isNumberChar_scientific hdigits _ _

theorem startsLine_toText (x : Double) : StartsLine x.toText := by
  cases x with
  | finite negative m q =>
    obtain ⟨hne, hwrite⟩ := isNumberChar_write standard (shortest m q)
    have hsign : ∀ c ∈ (if negative then "-" else "").toList, isNumberChar c = true := by
      cases negative <;> simp [isNumberChar]
    dsimp only [toText]
    split
    · cases negative <;> exact by decide
    · refine startsLine_of_isNumberChar (by simp [hne]) ?_
      rw [String.toList_append, String.toList_ofList, List.forall_mem_append]
      exact ⟨hsign, hwrite⟩
  | infinite negative => cases negative <;> exact by decide
  | notANumber => exact by decide

end Double

end Numbers

section Values

open Lowering

variable {s : Settings}

theorem oneLine_escapeChar (c : Char) : '\n' ∉ escapeChar c := by
  unfold escapeChar
  split
  · decide
  · decide
  · decide
  · decide
  · decide
  · decide
  · next h _ _ _ => simpa using Ne.symm h

theorem startsLine_stringLiteral (t : String) : StartsLine (stringLiteral t) := by
  refine ⟨?_, by simp [stringLiteral, isIndentation]⟩
  simp [OneLine, stringLiteral, oneLine_escapeChar]

theorem startsLine_parenthesized (needed : Bool) {t : String} (h : StartsLine t) :
    StartsLine (parenthesized needed t) := by
  have hopen : StartsLine "(" := by decide
  unfold parenthesized
  split
  · exact (hopen.append h.oneLine).append (by decide)
  · exact h

theorem oneLine_arguments {args : List Node} {texts : List String}
    (h : List.Forall₂ (fun a text => lower s a = pure (some text)) args texts)
    (hargs : ∀ a ∈ args, ∀ text, lower s a = pure (some text) → StartsLine text) :
    OneLine (", ".intercalate texts) := by
  have hall : ∀ t ∈ texts, OneLine t := by
    induction h with
    | nil => simp
    | cons hlower _ ih =>
      obtain ⟨ha, hargs⟩ := List.forall_mem_cons.1 hargs
      exact List.forall_mem_cons.2 ⟨(ha _ hlower).oneLine, ih hargs⟩
  exact oneLine_intercalate (by decide) hall

/-- The text of an expression may start a line. -/
theorem startsLine_of_lower {e : Node} (h : WellFormed.Expression e) {text : String}
    (hlower : lower s e = pure (some text)) : StartsLine text := by
  induction h generalizing text with
  | @integer n hn =>
    rw [lower_integer (length_toString_le (by decide) hn)] at hlower
    obtain rfl := text_of_pure hlower
    exact startsLine_natural n
  | float =>
    rw [lower] at hlower
    obtain rfl := text_of_pure hlower
    exact Double.startsLine_toText _
  | @string t =>
    rw [lower] at hlower
    obtain rfl := text_of_pure hlower
    exact startsLine_stringLiteral t
  | @boolean b =>
    rw [lower] at hlower
    obtain rfl := text_of_pure hlower
    cases b <;> exact by decide
  | name hx =>
    rw [lower] at hlower
    obtain rfl := text_of_pure hlower
    exact startsLine_of_isIdentifier hx
  | call hf hargs ih =>
    obtain ⟨texts, hall, hlowers⟩ := exists_lowerValues fun a ha => exists_lower s (hargs a ha)
    rw [lower, hlowers, pure_bind, joinValues_map_some, pure_bind] at hlower
    obtain rfl := text_of_pure hlower
    have hcallee := (startsLine_of_isIdentifier hf).append (u := "(") (by decide)
    exact (hcallee.append (oneLine_arguments hall fun a ha _ => ih a ha)).append (by decide)
  | @binary a b op hop ha hb iha ihb =>
    obtain ⟨c, p, -, -, hp⟩ := exists_operator hop
    obtain ⟨left, hleft⟩ := exists_lower s ha
    obtain ⟨right, hright⟩ := exists_lower s hb
    have hprecedence : precedenceOf op = pure p := by simp [precedenceOf, hp]
    rw [lower, hprecedence, pure_bind, hleft, pure_bind, hright, pure_bind] at hlower
    obtain rfl := text_of_pure hlower
    have hoperator : OneLine op := by
      have hall : ∀ op ∈ ["+", "-", "*", "/"], OneLine op := by decide
      exact hall op hop
    have hstart := startsLine_parenthesized (isOperation (· < p) a) (iha hleft)
    have hend := startsLine_parenthesized (isOperation (· ≤ p) b) (ihb hright)
    exact (((hstart.append (by decide)).append hoperator).append (by decide)).append hend.oneLine

theorem startsLine_of_valued {r : Registry} {e : Node} (h : WellFormed.Expression e)
    {text : String} (hvalued : Valued s r e text) : StartsLine text := by
  obtain ⟨text', hlower⟩ := exists_lower s h
  have hresult := hvalued { enums := r } rfl
  rw [hlower] at hresult
  obtain rfl := Option.some.inj (pure_eq_ok.1 hresult).1
  exact startsLine_of_lower h hlower

end Values

section Names

structure CaseLayout.Worded (c : CaseLayout) : Prop where
  enum : IsIdentifier c.enum
  name : IsIdentifier c.name
  fields : ∀ v ∈ c.fields, WellFormed.Formal v

structure EnumLayout.Worded (l : EnumLayout) : Prop where
  name : IsIdentifier l.name
  cases : ∀ c ∈ l.cases, c.Worded

theorem worded_layout {d : EnumDefinition} (h : WellFormed.Enumeration d) : d.layout.Worded := by
  refine ⟨h.name, fun c hc => ?_⟩
  obtain ⟨k, hk, rfl⟩ := List.mem_map.1 hc
  exact ⟨h.name, (h.cases k hk).name, (h.cases k hk).values⟩

theorem worded_of_ofProgram {nodes : List Node} (h : ∀ n ∈ nodes, WellFormed.Statement n)
    {r : Registry} (hr : Registry.ofProgram nodes = .ok r) : ∀ l ∈ r.enums, l.Worded := by
  obtain ⟨rfl, -⟩ := Registry.registerAll_empty_iff.1 hr
  intro l hl
  obtain ⟨d, hd, rfl⟩ := List.mem_map.1 hl
  obtain ⟨n, hn, hnd⟩ := List.mem_filterMap.1 hd
  refine worded_layout ?_
  cases h n hn with
  | enumeration hwell =>
    obtain rfl := Option.some.inj hnd
    exact hwell
  | expression he => cases he <;> exact nomatch hnd
  | _ => exact nomatch hnd

theorem worded_of_lookup {r : Registry} (hr : ∀ l ∈ r.enums, l.Worded) {enum case : String}
    {c : CaseLayout} (h : r.lookup enum case = .ok c) : c.Worded := by
  obtain ⟨l, hl, hc⟩ := Registry.lookup_eq_ok_iff.1 h
  exact (hr l (List.mem_of_find?_eq_some hl)).cases c (List.mem_of_find?_eq_some hc)

theorem ascii_of_isAlpha {c : Char} (h : c.isAlpha = true) : c.toNat < 0x80 := by
  have hc := Token.isAlpha_iff_toNat.1 h
  omega

theorem isWordPart_changedCase {c : Char} (h : c.isAlpha = true) :
    isWordPart c.toUpper = true ∧ isWordPart c.toLower = true := by
  have hall : ∀ n ∈ List.range 123, (Char.ofNat n).isAlpha = true →
      isWordPart (Char.ofNat n).toUpper = true ∧ isWordPart (Char.ofNat n).toLower = true := by
    decide +kernel
  have hc := Token.isAlpha_iff_toNat.1 h
  have hletter := hall c.toNat (List.mem_range.2 (by omega))
  rw [Char.ofNat_toNat] at hletter
  exact hletter h

theorem isWordPart_upperFirst {x : String} (h : IsIdentifier x) :
    ∀ d ∈ (Text.upperFirst x).toList, isWordPart d = true := by
  obtain ⟨c, cs, hx, hc, -⟩ := h.exists_word
  rw [Text.upperFirst, hx, String.toList_ofList, Text.upper, if_pos (ascii_of_isAlpha hc)]
  refine List.forall_mem_cons.2 ⟨(isWordPart_changedCase hc).1, fun d hd => ?_⟩
  exact h.isWordPart_of_mem (by simp [hx, show d ∈ cs from hd])

theorem isWordPart_lowerFirst {x : String} (h : IsIdentifier x) :
    ∀ d ∈ (Text.lowerFirst x).toList, isWordPart d = true := by
  obtain ⟨c, cs, hx, hc, -⟩ := h.exists_word
  rw [Text.lowerFirst, hx, String.toList_ofList, Text.lower, if_pos (ascii_of_isAlpha hc)]
  refine List.forall_mem_cons.2 ⟨(isWordPart_changedCase hc).2, fun d hd => ?_⟩
  exact h.isWordPart_of_mem (by simp [hx, show d ∈ cs from hd])

theorem oneLine_upperFirst {x : String} (h : IsIdentifier x) : OneLine (Text.upperFirst x) :=
  fun hmem => absurd (isWordPart_upperFirst h _ hmem) (by decide)

theorem oneLine_lowerFirst {x : String} (h : IsIdentifier x) : OneLine (Text.lowerFirst x) :=
  fun hmem => absurd (isWordPart_lowerFirst h _ hmem) (by decide)

namespace CaseLayout

variable {c : CaseLayout}

theorem startsLine_structName (h : c.Worded) : StartsLine c.structName := by
  have hstart : StartsLine "_" := by decide
  exact (hstart.append (startsLine_of_isIdentifier h.enum).oneLine).append
    (oneLine_upperFirst h.name)

theorem startsLine_tag (h : c.Worded) : StartsLine c.tag :=
  (startsLine_structName h).append (by decide)

theorem startsLine_constructor (h : c.Worded) : StartsLine c.constructor := by
  have hstart : StartsLine "_" := by decide
  exact (((hstart.append (startsLine_of_isIdentifier h.enum).oneLine).append (by decide)).append
    (oneLine_upperFirst h.name)).append (by decide)

end CaseLayout

theorem startsLine_of_constructorOf {m m' : Memory} (hr : ∀ l ∈ m.enums.enums, l.Worded)
    {enum case name : String} (henum : IsIdentifier enum) (hcase : IsIdentifier case)
    (h : Lowering.constructorOf enum case m = .ok name m') : StartsLine name := by
  rw [Lowering.constructorOf_eq] at h
  split at h
  · obtain ⟨c, m₁, hlookup, hrest⟩ := Lowering.bind_eq_ok.1 h
    cases hfound : m.enums.lookup enum case with
    | error f =>
      rw [Lowering.ofEnums_of_error hfound] at hlookup
      exact nomatch hlookup
    | ok c' =>
      rw [Lowering.ofEnums_of_ok hfound] at hlookup
      obtain ⟨rfl, -⟩ := EStateM.Result.ok.inj hlookup
      obtain ⟨rfl, -⟩ := Lowering.pure_eq_ok.1 hrest
      exact CaseLayout.startsLine_constructor (worded_of_lookup hr hfound)
  · obtain ⟨rfl, -⟩ := Lowering.pure_eq_ok.1 h
    exact CaseLayout.startsLine_constructor ⟨henum, hcase, by simp⟩

theorem startsLine_of_initializer {s : Settings} {r : Registry} (hr : ∀ l ∈ r.enums, l.Worded)
    {type : String} (htype : IsTypeName type) {value : Node}
    (h : WellFormed.Initializer type value) {text : String} (hvalued : Valued s r value text) :
    StartsLine text := by
  cases h with
  | expression he => exact startsLine_of_valued he hvalued
  | @construction case args hbuiltin hcase hargs =>
    obtain ⟨texts, hall, hlower⟩ := Lowering.exists_lower_construct (s := s) type case hargs
    have hresult := hvalued { enums := r } rfl
    rw [hlower] at hresult
    obtain ⟨name, m, hname, hrest⟩ := Lowering.bind_eq_ok.1 hresult
    obtain ⟨htext, -⟩ := Lowering.pure_eq_ok.1 hrest
    obtain rfl := Option.some.inj htext
    have henum : IsIdentifier type := htype.resolve_left (by simp [hbuiltin])
    have hstart := startsLine_of_constructorOf hr henum hcase hname
    have harguments := oneLine_arguments hall fun a ha _ => startsLine_of_lower (hargs a ha)
    exact ((hstart.append (by decide)).append harguments).append (by decide)

end Names

section Pieces

namespace Code

variable {b : Binder}

structure Binder.Spelled (b : Binder) : Prop where
  type : StartsLine b.type
  name : OneLine b.name

theorem Binder.startsLine_text (h : b.Spelled) : StartsLine b.text :=
  (h.type.append (by decide)).append h.name

theorem Binder.startsLine_constText (h : b.Spelled) : StartsLine b.constText := by
  have hconst : StartsLine "const " := by decide
  unfold Binder.constText
  split
  · exact (h.type.append (by decide)).append h.name
  · exact ((hconst.append h.type.oneLine).append (by decide)).append h.name

theorem Signature.startsLine_text {g : Signature} (hresult : g.result.Spelled)
    (hparameters : ∀ b ∈ g.parameters, b.Spelled) : StartsLine g.text := by
  have honeLine : OneLine (if g.parameters.isEmpty && g.explicitVoid then "void"
      else ", ".intercalate (g.parameters.map Binder.constText)) := by
    split
    · decide
    · refine oneLine_intercalate (by decide) fun t ht => ?_
      obtain ⟨b, hb, rfl⟩ := List.mem_map.1 ht
      exact (Binder.startsLine_constText (hparameters b hb)).oneLine
  exact (((Binder.startsLine_text hresult).append (by decide)).append honeLine).append (by decide)

theorem Access.startsLine_text {a : Access} (hroot : StartsLine a.root)
    (hmembers : ∀ x ∈ a.members, OneLine x) : StartsLine a.text := by
  unfold Access.text
  cases hlist : a.members with
  | nil => rwa [String.intercalate_singleton]
  | cons x xs =>
    rw [hlist] at hmembers
    rw [String.intercalate_cons_of_ne_nil (by simp)]
    exact (hroot.append (by decide)).append (oneLine_intercalate (by decide) hmembers)

/-- Every statement ends in a semicolon. -/
theorem Statement.getLast?_text (st : Statement) : st.text.toList.getLast? = some ';' := by
  cases st <;> exact getLast?_append_of_eq_some _ (by decide)

end Code

end Pieces

end SumLang
