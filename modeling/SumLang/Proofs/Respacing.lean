import SumLang.Compilation
import SumLang.Proofs.CommentSkipping
import SumLang.Proofs.CorrectPrefix
import SumLang.Proofs.RuleSteps
import SumLang.Proofs.WellFormed

/-! Blanks do not matter where they keep tokens apart: the texts of the tokens of a source, put
together again with any blanks between them, have the same tokens and are read as the same program,
or are refused for the same reason at the same token. -/
namespace SumLang

/-- Blanks for `n` tokens: before the first and behind each. Only the blanks at the two ends may be
missing. -/
structure Spacing (n : Nat) where
  before : String
  behind : List String
  length : behind.length = n
  blank : ∀ w ∈ before :: behind, ∀ c ∈ w.toList, Token.isSpace c = true
  apart : ∀ w ∈ behind.dropLast, w ≠ ""

namespace Token

/-- The texts of tokens, each with some blanks behind it. -/
def spread : List Token → List String → String
  | t :: ts, w :: ws => t.text ++ w ++ spread ts ws
  | _, _ => ""

variable {position : Nat} {w cs : List Char}

theorem scanFrom_blank (hw : ∀ c ∈ w, isSpace c = true) :
    scanFrom position (w ++ cs) = scanFrom (position + w.length) cs := by
  induction w generalizing position with
  | nil => rfl
  | cons c w ih =>
    obtain ⟨hc, hw⟩ := List.forall_mem_cons.1 hw
    rw [List.cons_append, scanFrom_space hc, ih hw, List.length_cons, Nat.add_right_comm,
      Nat.add_assoc]

theorem boundary_of_isSpace {c : Char} (hc : isSpace c = true) : Boundary (c :: cs) := by
  rw [boundary_cons]
  simp only [isSpace, Bool.or_eq_true, beq_iff_eq] at hc
  rcases hc with ((rfl | rfl) | rfl) | rfl <;> decide

/-- Blanks end a lexeme, and so does the end of the text. -/
theorem boundary_of_blank (hw : ∀ c ∈ w, isSpace c = true) (hcs : w = [] → cs = []) :
    Boundary (w ++ cs) := by
  cases w with
  | nil =>
    rw [hcs rfl]
    exact boundary_nil
  | cons c w => exact boundary_of_isSpace (hw c List.mem_cons_self)

theorem Scanned.takes {t : Token} (h : t.Scanned) (hb : Boundary cs) :
    Takes (t.text.toList ++ cs) t.text.toList t.content t.precedence := by
  obtain ⟨cs', htakes⟩ := h
  exact ⟨htakes.spells.longest hb, htakes.spells, htakes.limit⟩

/-- The tokens that are spread out are found again, whatever blanks stand between them. -/
theorem scanFrom_spread {ts : List Token} (hts : ∀ t ∈ ts, t.Scanned) {ws : List String}
    (hlength : ws.length = ts.length) (hblank : ∀ w ∈ ws, ∀ c ∈ w.toList, isSpace c = true)
    (hapart : ∀ w ∈ ws.dropLast, w ≠ "") (position : Nat) :
    ∃ us, scanFrom position (spread ts ws).toList = (us, none) ∧
      List.Forall₂ (fun t u => t.spelling = u.spelling) ts us := by
  induction ts generalizing ws position with
  | nil => exact ⟨[], scanFrom_nil, .nil⟩
  | cons t ts ih =>
    cases ws with
    | nil => simp at hlength
    | cons w ws =>
      obtain ⟨ht, hts⟩ := List.forall_mem_cons.1 hts
      obtain ⟨hw, hblank⟩ := List.forall_mem_cons.1 hblank
      have hlength : ws.length = ts.length := Nat.succ_inj.1 hlength
      have hrest : w.toList = [] → (spread ts ws).toList = [] := by
        intro hnil
        cases ws with
        | nil =>
          obtain rfl : ts = [] := List.eq_nil_of_length_eq_zero hlength.symm
          rfl
        | cons w' ws => exact absurd (String.toList_eq_nil_iff.1 hnil) (hapart w (by simp))
      have hapart : ∀ w ∈ ws.dropLast, w ≠ "" := by
        intro w' hw'
        cases ws with
        | nil => simp at hw'
        | cons => exact hapart w' (by simp [hw'])
      obtain ⟨us, hscan, hall⟩ := ih hts hlength hblank hapart
        (position + t.text.toList.length + w.toList.length)
      have htext : (spread (t :: ts) (w :: ws)).toList =
          t.text.toList ++ (w.toList ++ (spread ts ws).toList) := by
        rw [spread, String.toList_append, String.toList_append, List.append_assoc]
      have htakes := ht.takes (boundary_of_blank hw hrest)
      rw [htext, htakes.scanFrom_eq, scanFrom_blank hw, hscan]
      exact ⟨_, rfl, .cons (by simp [spelling]) hall⟩

end Token

def Spacing.text {n : Nat} (s : Spacing n) (tokens : List Token) : String :=
  s.before ++ Token.spread tokens s.behind

theorem Spacing.tokenize_text {ts : List Token} (hts : ∀ t ∈ ts, t.Scanned)
    (s : Spacing ts.length) : ∃ us, Token.tokenize (s.text ts) = .ok us ∧
      List.Forall₂ (fun t u => t.spelling = u.spelling) ts us := by
  obtain ⟨hbefore, hbehind⟩ := List.forall_mem_cons.1 s.blank
  obtain ⟨us, hscan, hspelling⟩ := Token.scanFrom_spread hts s.length hbehind s.apart
    (0 + s.before.toList.length)
  refine ⟨us, Token.tokenize_eq_ok.2 ?_, hspelling⟩
  rw [Token.scan, Spacing.text, String.toList_append, Token.scanFrom_blank hbefore, hscan]

/-- Tokens that differ in their places only are read alike. -/
theorem parse_of_spelling {ts us : List Token}
    (h : List.Forall₂ (fun t u => t.spelling = u.spelling) ts us) :
    (∃ nodes, parse ts = .ok nodes ∧ parse us = .ok nodes) ∨
      ∃ f g, parse ts = .error f ∧ parse us = .error g ∧
        f.Beside (fun t u => t.spelling = u.spelling) 0 g := by
  have hbare : ∀ t u : Token, t.spelling = u.spelling → t.bare = u.bare := by
    intro t u htu
    simp only [Token.spelling, Prod.mk.injEq] at htu
    rw [Token.bare, Token.bare, htu.1, htu.2.2]
  have hstart : (Cursor.start ts).Beside (fun t u => t.spelling = u.spelling) 0
      (Cursor.start us) := ⟨rfl, h⟩
  rcases Parser.Composed.program.beside hbare hstart with
    ⟨nodes, c, c', hr, hr', -⟩ | ⟨f, g, hf, hg, hbeside⟩
  · exact .inl ⟨nodes, parse_eq_ok.2 ⟨c, hr⟩, parse_eq_ok.2 ⟨c', hr'⟩⟩
  · exact .inr ⟨f, g, parse_eq_error.2 hf, parse_eq_error.2 hg, hbeside⟩

theorem GrammarFault.Beside.expected_eq {R : Token → Token → Prop} {k : Nat} {f g : GrammarFault}
    (h : f.Beside R k g) : g.expected = f.expected := by
  rw [expected, expected, h.expectation, h.wanted]

/-- The texts of the tokens of a source, in any spacing, have the same tokens apart from their
places, and are read and compiled like the source, or refused like it. -/
theorem parseSource_respaced (source : String) (tokens : List Token)
    (h : Token.tokenize source = .ok tokens) (s : Spacing tokens.length) :
    (∃ us, Token.tokenize (s.text tokens) = .ok us ∧
      us.map Token.spelling = tokens.map Token.spelling) ∧
    ((∃ nodes, parseSource source = .ok nodes ∧ parseSource (s.text tokens) = .ok nodes ∧
      ∀ o : Options, o.stripComments = false →
        compileText o (s.text tokens) = compileText o source) ∨
      ∃ f g, parseSource source = .error (.grammatical f) ∧
        parseSource (s.text tokens) = .error (.grammatical g) ∧ g.expectation = f.expectation ∧
        g.expected = f.expected ∧ g.hint = f.hint ∧ g.index = f.index) := by
  obtain ⟨us, hus, hspelling⟩ := s.tokenize_text (Token.scanned_of_tokenize h)
  refine ⟨⟨us, hus, (forall₂_iff_map_eq.1 hspelling).symm⟩, ?_⟩
  rw [parseSource_of_tokenize h, parseSource_of_tokenize hus]
  rcases parse_of_spelling hspelling with ⟨nodes, hts, hparse⟩ | ⟨f, g, hf, hg, hbeside⟩
  · refine .inl ⟨nodes, by rw [hts]; rfl, by rw [hparse]; rfl, ?_⟩
    intro o ho
    have hprepare : ∀ text, o.prepare text = text := by
      intro text
      rw [Options.prepare, ho]
      rfl
    rw [compileText_eq, compileText_eq, hprepare, hprepare, parseSource_of_tokenize h,
      parseSource_of_tokenize hus, hts, hparse]
  · refine .inr ⟨f, g, by rw [hf]; rfl, by rw [hg]; rfl, ?_⟩
    exact ⟨hbeside.expectation, hbeside.expected_eq, hbeside.hint, hbeside.index⟩

/-- Blanks in a string are part of its token, and those between the tokens are not. -/
theorem parseSource_respaced_print :
    ∃ s : Spacing (Token.scan "print(\"a b\"-1);").1.length,
      s.text (Token.scan "print(\"a b\"-1);").1 = "\nprint (\t\"a b\" - 1 \r\n) ; " ∧
      ∃ us, Token.tokenize (s.text (Token.scan "print(\"a b\"-1);").1) = .ok us ∧
        us.map Token.spelling = (Token.scan "print(\"a b\"-1);").1.map Token.spelling := by
  have hblank : ["\n", " ", "\t", " ", " ", " \r\n", " ", " "].all
      (·.toList.all Token.isSpace) := by decide +kernel
  simp only [List.all_eq_true] at hblank
  refine ⟨⟨"\n", [" ", "\t", " ", " ", " \r\n", " ", " "], by decide +kernel, hblank, by decide⟩,
    by simp only [Spacing.text]; decide +kernel, ?_⟩
  exact (parseSource_respaced "print(\"a b\"-1);" _ (by decide +kernel) _).1

end SumLang
