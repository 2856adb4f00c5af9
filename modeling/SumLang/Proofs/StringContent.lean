import SumLang.Lowering.Statement

/-! What a string literal denotes where C reads it. A null character is written as the shortest
octal escape, which takes up to two octal digits of the text behind it. All other characters denote
themselves wherever they stand. -/
namespace SumLang

namespace CString

/-- The characters that have an escape of one letter. -/
def simpleEscape? : Char → Option Char
  | '\x27' => some '\x27'
  | '"' => some '"'
  | '?' => some '?'
  | '\\' => some '\\'
  | 'a' => some '\x07'
  | 'b' => some '\x08'
  | 'f' => some '\x0c'
  | 'n' => some '\n'
  | 'r' => some '\r'
  | 't' => some '\t'
  | 'v' => some '\x0b'
  | _ => none

def isOctalDigit (c : Char) : Bool :=
  '0'.toNat ≤ c.toNat && c.toNat ≤ '7'.toNat

def octalChar (digits : List Char) : Char :=
  Char.ofNat (digits.foldl (fun n d => 8 * n + (d.toNat - '0'.toNat)) 0)

/-- The octal digits at the start of a text, up to some number. -/
def octalDigits (n : Nat) (cs : List Char) : List Char :=
  (cs.take n).takeWhile isOctalDigit

/-- What the escape behind a backslash denotes, and how many characters it takes. -/
def escape? (cs : List Char) : Option (Char × Nat) :=
  match cs.head?.bind simpleEscape? with
  | some x => some (x, 1)
  | none =>
    if octalDigits 3 cs = [] then none
    else some (octalChar (octalDigits 3 cs), (octalDigits 3 cs).length)

/-- The characters denoted by the rest of a literal up to its closing quote, behind characters that
belong to an escape already read. -/
def contentFrom : Nat → List Char → Option (List Char)
  | _, [] => none
  | skip + 1, _ :: cs => contentFrom skip cs
  | 0, c :: cs =>
    if c = '"' then (if cs.isEmpty then some [] else none)
    else if c = '\n' then none
    else if c = '\\' then
      match escape? cs with
      | some (x, taken) => (contentFrom taken cs).map (x :: ·)
      | none => none
    else (contentFrom 0 cs).map (c :: ·)

/-- The characters that a string literal denotes, if the text is one. -/
def content? : List Char → Option (List Char)
  | '"' :: cs => contentFrom 0 cs
  | _ => none

/-- A text in which every null character has taken up to two octal digits behind it, without the
characters that were already taken. -/
def fused : Nat → List Char → List Char
  | _, [] => []
  | taken + 1, _ :: cs => fused taken cs
  | 0, c :: cs =>
    if c = '\x00' then octalChar (octalDigits 2 cs) :: fused (octalDigits 2 cs).length cs
    else c :: fused 0 cs

theorem escapeChar_of_isOctalDigit {c : Char} (h : isOctalDigit c = true) : escapeChar c = [c] := by
  unfold escapeChar
  split
  case h_7 => rfl
  all_goals exact absurd h (by decide)

/-- What is written for any other character starts with none. -/
theorem exists_escapeChar {c : Char} (h : isOctalDigit c = false) :
    ∃ x xs, escapeChar c = x :: xs ∧ isOctalDigit x = false := by
  unfold escapeChar
  split
  case h_7 => exact ⟨_, _, rfl, h⟩
  all_goals exact ⟨_, _, rfl, by decide⟩

/-- The octal digits at the start of a text stand there as they are when it is written. -/
theorem octalDigits_flatMap (n : Nat) (cs : List Char) :
    octalDigits n (cs.flatMap escapeChar ++ ['"']) = octalDigits n cs := by
  induction cs generalizing n with
  | nil =>
    cases n with
    | zero => rfl
    | succ n => rfl
  | cons c cs ih =>
    cases n with
    | zero => rfl
    | succ n =>
      cases hc : isOctalDigit c with
      | true =>
        have htail := ih n
        unfold octalDigits at htail ⊢
        simp [escapeChar_of_isOctalDigit hc, hc, htail]
      | false =>
        obtain ⟨x, xs, hx, hoctal⟩ := exists_escapeChar hc
        unfold octalDigits
        simp [hx, hoctal, hc]

theorem contentFrom_escape {cs : List Char} {x : Char} {taken : Nat}
    (h : escape? cs = some (x, taken)) :
    contentFrom 0 ('\\' :: cs) = (contentFrom taken cs).map (x :: ·) := by
  rw [contentFrom, if_neg (by decide), if_neg (by decide), if_pos rfl, h]

theorem contentFrom_simpleEscape {e x : Char} (h : simpleEscape? e = some x) (cs : List Char) :
    contentFrom 0 ('\\' :: e :: cs) = (contentFrom 0 cs).map (x :: ·) := by
  have hescape : escape? (e :: cs) = some (x, 1) := by
    unfold escape?
    rw [List.head?_cons, Option.bind_some, h]
  exact contentFrom_escape hescape

/-- A character that is not null denotes itself, whatever follows. -/
theorem contentFrom_escapeChar {c : Char} (h : c ≠ '\x00') (cs : List Char) :
    contentFrom 0 (escapeChar c ++ cs) = (contentFrom 0 cs).map (c :: ·) := by
  unfold escapeChar
  split
  case h_6 => exact absurd rfl h
  case h_7 hback hquote hline _ _ _ =>
    rw [List.singleton_append, contentFrom, if_neg hquote, if_neg hline, if_neg hback]
  all_goals exact contentFrom_simpleEscape (by rfl) cs

/-- A null character takes the octal digits that follow. -/
theorem contentFrom_escapeChar_nul (cs : List Char) :
    contentFrom 0 (escapeChar '\x00' ++ cs) =
      (contentFrom (octalDigits 2 cs).length cs).map (octalChar (octalDigits 2 cs) :: ·) := by
  -- The escape itself is the octal digit zero, so two more digits belong to it.
  have hescape : escape? ('0' :: cs) =
      some (octalChar (octalDigits 2 cs), (octalDigits 2 cs).length + 1) := rfl
  exact contentFrom_escape hescape

theorem octalDigits_isPrefix (n : Nat) (cs : List Char) : octalDigits n cs <+: cs :=
  (List.takeWhile_prefix _).trans (List.take_prefix _ _)

/-- The literal of a text denotes the text with its null characters and digits fused. -/
theorem contentFrom_flatMap (k : Nat) (cs : List Char)
    (hk : ∀ c ∈ cs.take k, isOctalDigit c = true) (hlength : k ≤ cs.length) :
    contentFrom k (cs.flatMap escapeChar ++ ['"']) = some (fused k cs) := by
  induction cs generalizing k with
  | nil =>
    have : k = 0 := by simpa using hlength
    subst k
    rfl
  | cons c cs ih =>
    rw [List.flatMap_cons, List.append_assoc]
    cases k with
    | succ k =>
      have hc : isOctalDigit c = true := hk c (by simp)
      rw [escapeChar_of_isOctalDigit hc, List.singleton_append, contentFrom, fused]
      refine ih k (fun d hd => hk d ?_) (by simpa using hlength)
      rw [List.take_succ_cons]
      exact List.mem_cons_of_mem c hd
    | zero =>
      by_cases hc : c = '\x00'
      · subst c
        have htake : ∀ d ∈ cs.take (octalDigits 2 cs).length, isOctalDigit d = true := by
          rw [← List.prefix_iff_eq_take.1 (octalDigits_isPrefix 2 cs)]
          exact fun d hd => List.all_eq_true.1 List.all_takeWhile d hd
        have hle := (octalDigits_isPrefix 2 cs).length_le
        rw [contentFrom_escapeChar_nul, octalDigits_flatMap, ih _ htake hle, fused, if_pos rfl]
        rfl
      · rw [contentFrom_escapeChar hc, ih 0 (by simp) (Nat.zero_le _), fused, if_neg hc]
        rfl

/-- A null character stands right before an octal digit. -/
def NulBeforeDigit (cs : List Char) : Prop :=
  ∃ d, isOctalDigit d = true ∧ ['\x00', d] <:+: cs

theorem octalDigits_eq_nil_iff (n : Nat) (cs : List Char) :
    octalDigits (n + 1) cs = [] ↔ ∀ d ∈ cs.head?, isOctalDigit d = false := by
  unfold octalDigits
  cases cs with
  | nil => simp
  | cons c cs => cases h : isOctalDigit c <;> simp [h]

theorem nulBeforeDigit_cons {c : Char} {cs : List Char} :
    NulBeforeDigit (c :: cs) ↔ (c = '\x00' ∧ octalDigits 2 cs ≠ []) ∨ NulBeforeDigit cs := by
  have hhead : octalDigits 2 cs ≠ [] ↔ ∃ d, isOctalDigit d = true ∧ [d] <+: cs := by
    rw [Ne, octalDigits_eq_nil_iff]
    cases cs with
    | nil => simp
    | cons d cs => simp
  rw [hhead]
  unfold NulBeforeDigit
  simp only [List.infix_cons_iff, List.cons_prefix_cons]
  constructor
  · rintro ⟨d, hd, ⟨hc, hcs⟩ | hcs⟩
    · exact .inl ⟨hc.symm, d, hd, hcs⟩
    · exact .inr ⟨d, hd, hcs⟩
  · rintro (⟨hc, d, hd, hcs⟩ | ⟨d, hd, hcs⟩)
    · exact ⟨d, hd, .inl ⟨hc.symm, hcs⟩⟩
    · exact ⟨d, hd, .inr hcs⟩

/-- Fused characters are lost. -/
theorem length_fused_add_le (k : Nat) (cs : List Char) (h : k ≤ cs.length) :
    (fused k cs).length + k ≤ cs.length := by
  induction cs generalizing k with
  | nil =>
    have hk : k = 0 := by simpa using h
    subst k
    exact Nat.le_refl 0
  | cons c cs ih =>
    cases k with
    | succ k =>
      have hle := ih k (by simpa using h)
      rw [fused, List.length_cons]
      omega
    | zero =>
      rw [fused]
      split
      · have hle := ih _ (octalDigits_isPrefix 2 cs).length_le
        simp only [List.length_cons]
        omega
      · have hle := ih 0 (Nat.zero_le _)
        simp only [List.length_cons]
        omega

theorem fused_eq_self_iff (cs : List Char) : fused 0 cs = cs ↔ ¬ NulBeforeDigit cs := by
  induction cs with
  | nil => simp [fused, NulBeforeDigit]
  | cons c cs ih =>
    rw [nulBeforeDigit_cons, not_or, ← ih, fused]
    split
    · next hc =>
      subst c
      by_cases hdigits : octalDigits 2 cs = []
      · have hnul : octalChar [] = '\x00' := rfl
        simp [hdigits, hnul]
      · have hlength : 0 < (octalDigits 2 cs).length := List.length_pos_iff.2 hdigits
        have hle := length_fused_add_le _ cs (octalDigits_isPrefix 2 cs).length_le
        refine iff_of_false (fun heq => ?_) (by simp [hdigits])
        have hsame := congrArg List.length heq
        simp only [List.length_cons] at hsame
        omega
    · next hc => simp [hc]

end CString

open CString

/-- A text is written as a literal of C, and the literal denotes the text unless a null character
stands right before an octal digit in it. -/
theorem content_string_iff (s : Settings) (text : String) (m : Memory) :
    ∃ literal content, Lowering.lower s (.string text) m = .ok (some literal) m ∧
      content? literal.toList = some content ∧
      (content = text.toList ↔ ¬ NulBeforeDigit text.toList) := by
  refine ⟨stringLiteral text, fused 0 text.toList, ?_, ?_, fused_eq_self_iff _⟩
  · rw [Lowering.lower]
    rfl
  · rw [stringLiteral, String.toList_ofList]
    exact contentFrom_flatMap 0 text.toList (by simp) (Nat.zero_le _)

/-- The escape of the null character and the digit behind it are one escape. -/
theorem content_nul_one : content? (stringLiteral "\x001").toList = some ['\x01'] ∧
    content? (stringLiteral "\x001").toList ≠ some "\x001".toList := by
  decide

end SumLang
