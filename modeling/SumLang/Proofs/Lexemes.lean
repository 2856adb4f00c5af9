import SumLang.Token.Scan

/-! The classes of lexemes, what the lexemes of each class stand for, and the longest lexeme at the
start of a text. -/
namespace SumLang.Token

def marks : List (Char × Symbol × Int) :=
  [('+', .operator, 20), ('-', .operator, 20), ('*', .operator, 40), ('/', .operator, 40),
    ('=', .equal, -1), (':', .colon, -1), (';', .semicolon, -1), ('(', .leftParen, -1),
    (')', .rightParen, -1), ('\x7b', .leftBrace, -1), ('\x7d', .rightBrace, -1), (',', .comma, -1),
    ('.', .period, -1)]

/-- The text between the quotes of a string, and the characters that it denotes. -/
inductive Quoted : List Char → List Char → Prop where
  | nil : Quoted [] []
  | escape {c : Char} {cs s : List Char} :
    Quoted cs s → Quoted ('\\' :: c :: cs) (unescape c :: s)
  | plain {c : Char} {cs s : List Char} :
    c ≠ '"' → c ≠ '\n' → c ≠ '\\' → Quoted cs s → Quoted (c :: cs) (c :: s)

/-- The lexemes: a text of one of the classes, what it stands for, and its precedence. -/
inductive Spells : List Char → Content → Int → Prop where
  | word {c : Char} {cs : List Char} :
    c.isAlpha = true → (∀ d ∈ cs, d.isAlphanum = true ∨ d = '_') →
    Spells (c :: cs) (wordContent (String.ofList (c :: cs))) (-1)
  | arrow : Spells ['-', '>'] (.symbol .arrow "->") (-1)
  | mark {c : Char} {s : Symbol} {p : Int} :
    (c, s, p) ∈ marks → Spells [c] (.symbol s c.toString) p
  | integer {d : Char} {ds : List Char} :
    (∀ x ∈ d :: ds, x.isDigit = true) →
    Spells (d :: ds) (.integer (Double.digitsValue (d :: ds))) (-1)
  | float {d : Char} {ds : List Char} {f : Char} {fs : List Char} :
    (∀ x ∈ d :: ds, x.isDigit = true) → (∀ x ∈ f :: fs, x.isDigit = true) →
    Spells (d :: (ds ++ '.' :: f :: fs)) (.float (Double.ofLexeme (d :: ds) (f :: fs))) (-1)
  | string {cs s : List Char} :
    Quoted cs s → Spells ('"' :: (cs ++ ['"'])) (.string (String.ofList s)) (-1)

def IsLexeme (w : List Char) : Prop :=
  ∃ content precedence, Spells w content precedence

/-- The longest lexeme that the text `cs` starts with. -/
structure Longest (w cs : List Char) : Prop where
  start : w <+: cs
  lexeme : IsLexeme w
  greatest : ∀ v, v <+: cs → IsLexeme v → v.length ≤ w.length

theorem Longest.unique {v w cs : List Char} (hv : Longest v cs) (hw : Longest w cs) : v = w := by
  have hvw := hw.greatest v hv.start hv.lexeme
  have hwv := hv.greatest w hw.start hw.lexeme
  exact (List.prefix_of_prefix_length_le hv.start hw.start hvw).eq_of_length (by omega)

/-! The first character of a lexeme tells its class. -/

theorem isAlpha_iff_toNat {c : Char} :
    c.isAlpha = true ↔ (65 ≤ c.toNat ∧ c.toNat ≤ 90) ∨ (97 ≤ c.toNat ∧ c.toNat ≤ 122) := by
  have hdef : c.isAlpha = (decide (c.val ≥ 'A'.val ∧ c.val ≤ 'Z'.val) ||
      (decide (c.val ≥ 'a'.val) && decide (c.val ≤ 'z'.val))) := rfl
  rw [hdef]
  simp [UInt32.le_iff_toNat_le]

theorem not_isAlpha_of_isDigit {c : Char} (h : c.isDigit = true) : c.isAlpha = false := by
  have hdigit : 48 ≤ c.toNat ∧ c.toNat ≤ 57 := Char.isDigit_iff_toNat.1 h
  rw [Bool.eq_false_iff]
  intro halpha
  have hletter := isAlpha_iff_toNat.1 halpha
  omega

theorem start_of_mem_marks {m : Char × Symbol × Int} (h : m ∈ marks) :
    m.1.isAlpha = false ∧ m.1.isDigit = false ∧ m.1 ≠ '"' ∧ isSpace m.1 = false := by
  have hall : ∀ m ∈ marks, m.1.isAlpha = false ∧ m.1.isDigit = false ∧ m.1 ≠ '"' ∧
      isSpace m.1 = false := by decide
  exact hall m h

theorem not_isAlphanum_of_isSpace {c : Char} (h : isSpace c = true) : c.isAlphanum = false := by
  simp only [isSpace, Bool.or_eq_true, beq_iff_eq] at h
  rcases h with ((rfl | rfl) | rfl) | rfl <;> decide

theorem eq_of_mem_marks {m m' : Char × Symbol × Int} (h : m ∈ marks) (h' : m' ∈ marks)
    (hc : m.1 = m'.1) : m = m' := by
  have hall : ∀ m ∈ marks, ∀ m' ∈ marks, m.1 = m'.1 → m = m' := by decide
  exact hall m h m' h' hc

section Inversion

variable {c : Char} {w : List Char} {a : Content} {p : Int}

theorem Spells.word_of_isAlpha (h : Spells (c :: w) a p) (hc : c.isAlpha = true) :
    (∀ d ∈ w, d.isAlphanum = true ∨ d = '_') ∧ a = wordContent (String.ofList (c :: w)) ∧
      p = -1 := by
  cases h with
  | word _ hw => exact ⟨hw, rfl, rfl⟩
  | arrow => exact absurd hc (by decide)
  | mark hm => simp [(start_of_mem_marks hm).1] at hc
  | integer hd => simp [not_isAlpha_of_isDigit (hd c (by simp))] at hc
  | float hd => simp [not_isAlpha_of_isDigit (hd c (by simp))] at hc
  | string => exact absurd hc (by decide)

theorem Spells.number_of_isDigit (h : Spells (c :: w) a p) (hc : c.isDigit = true) :
    ((∀ x ∈ c :: w, x.isDigit = true) ∧ a = .integer (Double.digitsValue (c :: w)) ∧ p = -1) ∨
    ∃ ds f fs, w = ds ++ '.' :: f :: fs ∧ (∀ x ∈ c :: ds, x.isDigit = true) ∧
      (∀ x ∈ f :: fs, x.isDigit = true) ∧ a = .float (Double.ofLexeme (c :: ds) (f :: fs)) ∧
      p = -1 := by
  cases h with
  | word hc' => simp [not_isAlpha_of_isDigit hc] at hc'
  | arrow => exact absurd hc (by decide)
  | mark hm => simp [(start_of_mem_marks hm).2.1] at hc
  | integer hd => exact .inl ⟨hd, rfl, rfl⟩
  | float hd hf => exact .inr ⟨_, _, _, rfl, hd, hf, rfl, rfl⟩
  | string => exact absurd hc (by decide)

theorem Spells.string_of_quote (h : Spells ('"' :: w) a p) :
    ∃ cs s, w = cs ++ ['"'] ∧ Quoted cs s ∧ a = .string (String.ofList s) ∧ p = -1 := by
  cases h with
  | word hc => exact absurd hc (by decide)
  | mark hm => exact absurd rfl (start_of_mem_marks hm).2.2.1
  | integer hd => exact absurd (hd '"' (by simp)) (by decide)
  | float hd => exact absurd (hd '"' (by simp)) (by decide)
  | string hq => exact ⟨_, _, rfl, hq, rfl, rfl⟩

theorem Spells.mark_of_mem {s : Symbol} {q : Int} (h : Spells (c :: w) a p)
    (hc : (c, s, q) ∈ marks) :
    (w = [] ∧ a = .symbol s c.toString ∧ p = q) ∨
      (c = '-' ∧ w = ['>'] ∧ a = .symbol .arrow "->" ∧ p = -1) := by
  obtain ⟨halpha, hdigit, hquote, -⟩ := start_of_mem_marks hc
  cases h with
  | word hc' => simp [halpha] at hc'
  | arrow => exact .inr ⟨rfl, rfl, rfl, rfl⟩
  | mark hm =>
    have heq := eq_of_mem_marks hm hc rfl
    simp only [Prod.mk.injEq, true_and] at heq
    exact .inl ⟨rfl, by rw [heq.1], heq.2⟩
  | integer hd => simp [hd c (by simp)] at hdigit
  | float hd => simp [hd c (by simp)] at hdigit
  | string => exact absurd rfl hquote

/-- The four kinds of characters that a lexeme can start with. -/
theorem Spells.start (h : Spells (c :: w) a p) :
    c.isAlpha = true ∨ c.isDigit = true ∨ c = '"' ∨ ∃ s q, (c, s, q) ∈ marks := by
  cases h with
  | word hc => exact .inl hc
  | arrow => exact .inr (.inr (.inr ⟨.operator, 20, by decide⟩))
  | mark hm => exact .inr (.inr (.inr ⟨_, _, hm⟩))
  | integer hd => exact .inr (.inl (hd c (by simp)))
  | float hd => exact .inr (.inl (hd c (by simp)))
  | string => exact .inr (.inr (.inl rfl))

theorem Spells.isSpace_eq_false (h : Spells (c :: w) a p) : isSpace c = false := by
  have halnum (hc : c.isAlphanum = true) : isSpace c = false :=
    Bool.eq_false_iff.2 fun hs => by simp [not_isAlphanum_of_isSpace hs] at hc
  rcases h.start with hc | hc | rfl | ⟨s, q, hm⟩
  · exact halnum (by simp [Char.isAlphanum, hc])
  · exact halnum (by simp [Char.isAlphanum, hc])
  · decide
  · exact (start_of_mem_marks hm).2.2.2

end Inversion

theorem wordContent_ne_operator (w x : String) : wordContent w ≠ .symbol .operator x := by
  unfold wordContent
  split
  · next k hk =>
    have hne : k ≠ .operator := by
      rintro rfl
      unfold Symbol.ofKeyword? at hk
      split at hk <;> simp at hk
    simp [hne]
  · split
    · simp
    · split <;> simp

theorem Spells.precedence_nonneg {w : List Char} {x : String} {p : Int}
    (h : Spells w (.symbol .operator x) p) : 0 ≤ p := by
  generalize ha : Content.symbol .operator x = a at h
  cases h with
  | word => exact absurd ha.symm (wordContent_ne_operator _ x)
  | mark hm =>
    have hall : ∀ m ∈ marks, m.2.1 = .operator → 0 ≤ m.2.2 := by decide
    exact hall _ hm (Content.symbol.inj ha).1.symm
  | arrow => simp at ha
  | integer => simp at ha
  | float => simp at ha
  | string => simp at ha

theorem Spells.exists_cons {w : List Char} {a : Content} {p : Int} (h : Spells w a p) :
    ∃ c v, w = c :: v := by
  cases h <;> exact ⟨_, _, rfl⟩

/-- Only an integer is made of digits alone. -/
theorem Spells.integer_of_digits {w : List Char} {a : Content} {p : Int} (h : Spells w a p)
    (hw : ∀ x ∈ w, x.isDigit = true) : ∃ n, a = .integer n := by
  obtain ⟨c, v, rfl⟩ := h.exists_cons
  rcases h.number_of_isDigit (hw c (by simp)) with ⟨-, ha, -⟩ | ⟨ds, f, fs, rfl, -⟩
  · exact ⟨_, ha⟩
  · exact absurd (hw '.' (by simp)) (by decide)

/-- A word that is neither a keyword nor a truth value. -/
def IsIdentifier (x : String) : Prop := Spells x.toList (.symbol .identifier x) (-1)

theorem isIdentifier_of_word {x : String} {c : Char} {cs : List Char} (hx : x.toList = c :: cs)
    (hc : c.isAlpha = true) (hcs : ∀ d ∈ cs, d.isAlphanum = true ∨ d = '_')
    (hword : wordContent x = .symbol .identifier x) : IsIdentifier x := by
  have hspells : Spells (c :: cs) (wordContent (String.ofList (c :: cs))) (-1) := .word hc hcs
  rwa [← hx, String.ofList_toList, hword] at hspells

theorem IsIdentifier.exists_word {x : String} (h : IsIdentifier x) :
    ∃ c cs, x.toList = c :: cs ∧ c.isAlpha = true ∧ ∀ d ∈ cs, d.isAlphanum = true ∨ d = '_' := by
  unfold IsIdentifier at h
  generalize x.toList = w at h
  generalize ha : Content.symbol .identifier x = a at h
  cases h with
  | word hc hcs => exact ⟨_, _, rfl, hc, hcs⟩
  | mark hm =>
    have hall : ∀ m ∈ marks, m.2.1 ≠ .identifier := by decide
    exact absurd (Content.symbol.inj ha).1.symm (hall _ hm)
  | arrow => simp at ha
  | integer => simp at ha
  | float => simp at ha
  | string => simp at ha

theorem IsIdentifier.head?_ne {x : String} (h : IsIdentifier x) : x.toList.head? ≠ some '_' := by
  obtain ⟨c, cs, hx, hc, -⟩ := h.exists_word
  rw [hx, List.head?_cons]
  rintro ⟨⟩
  exact absurd hc (by decide)

end SumLang.Token
