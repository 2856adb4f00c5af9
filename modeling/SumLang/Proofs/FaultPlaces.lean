import SumLang.Proofs.Acceptance
import SumLang.Proofs.CorrectPrefix
import SumLang.Proofs.RuleSteps

/-! The faults of a compilation and their places. A source is compiled, or the reason why not is one
that sources are checked for and names the place in the text where it was found. -/
namespace SumLang

open Cursor (Spans)

/-- The text has tokens up to a place where it is not blank and starts no token, for the given
reason. -/
def Token.StopsAt (text : String) (place : Nat) (f : LexFault) : Prop :=
  ∃ tokens, MaximalMunch text.toList 0 place tokens ∧ Blocked place (text.toList.drop place) f

/-- A fault with its place in the text: a character, the quote that opens a string, an integer, a
token, or the end of the tokens. A program that cannot be lowered is reported without a place. -/
inductive Fault.Located (text : String) : Fault → Prop where
  | character {c : Char} {p : Nat} : p < text.length → text.toList[p]? = some c →
      Token.StopsAt text p (.invalidCharacter c p) →
      Located text (.source (.lexical (.invalidCharacter c p)))
  | quote {p : Nat} : p < text.length → text.toList[p]? = some '"' →
      Token.StopsAt text p (.unterminatedString p) →
      Located text (.source (.lexical (.unterminatedString p)))
  | integer {n p : Nat} : Token.StopsAt text p (.integerTooLong n) →
      Located text (.source (.lexical (.integerTooLong n)))
  | token {tokens : List Token} {t : Token} {f : GrammarFault} {p : Nat} :
      Token.tokenize text = .ok tokens → f.index < tokens.length → tokens[f.index]? = some t →
      f.token = some t → t.text.toList <+: text.toList.drop p →
      f.diagnostic.position = some (p : Int) → Located text (.source (.grammatical f))
  | finish {tokens : List Token} {f : GrammarFault} :
      Token.tokenize text = .ok tokens → f.index = tokens.length → f.token = none →
      f.diagnostic.position = none → Located text (.source (.grammatical f))
  | lowering {f : LoweringFault} : f.IsReported → f.diagnostic.position = none →
      Located text (.lowering f)

namespace Token

/-- A text is refused for the reason at the first place that starts no token. -/
theorem tokenize_eq_error_iff {text : String} {f : LexFault} :
    tokenize text = .error f ↔ ∃ place, StopsAt text place f := by
  rw [tokenize_eq_error]
  constructor
  · intro h
    obtain ⟨place, -, hmunch, hends⟩ := scanFrom_maximalMunch text.toList 0 (Nat.zero_le _)
    rw [List.drop_zero] at hmunch hends
    have hfault : (scanFrom 0 text.toList).2 = some f := h
    rw [hfault] at hends
    exact ⟨place, _, hmunch, hends⟩
  · rintro ⟨place, tokens, hmunch, hblocked⟩
    have hends : Ends text.toList place (some f) := hblocked
    have hscan := hmunch.scanFrom_eq (Nat.zero_le _) hends
    rw [List.drop_zero] at hscan
    rw [scan, hscan]

theorem Blocked.exists_digits {place n : Nat} {cs : List Char}
    (h : Blocked place cs (.integerTooLong n)) :
    ∃ digits, Longest digits cs ∧ (∀ d ∈ digits, d.isDigit = true) ∧
      maxIntegerDigits < digits.length := by
  cases h with
  | tooLong hlongest hdigits hlength => exact ⟨_, hlongest, hdigits, hlength⟩

theorem StopsAt.located {text : String} {place : Nat} {f : LexFault} (h : StopsAt text place f) :
    Fault.Located text (.source (.lexical f)) := by
  have hblocked : Blocked place (text.toList.drop place) f := h.elim fun _ h => h.2
  generalize hcs : text.toList.drop place = cs at hblocked
  have hhead : text.toList[place]? = cs.head? := by rw [← hcs, List.head?_drop]
  have hlt (c : Char) (hc : text.toList[place]? = some c) : place < text.length := by
    obtain ⟨hlt, -⟩ := List.getElem?_eq_some_iff.1 hc
    rwa [String.length_toList] at hlt
  cases hblocked with
  | unterminated => exact .quote (hlt _ hhead) hhead h
  | invalid => exact .character (hlt _ hhead) hhead h
  | tooLong => exact .integer h

end Token

/-- A fault of the grammar is reported with the token at its index, or at the end. -/
theorem getElem?_of_parse_error {tokens : List Token} {f : GrammarFault}
    (h : parse tokens = .error f) : tokens[f.index]? = f.token ∧ f.index ≤ tokens.length := by
  obtain ⟨c', hrun⟩ := parse_eq_error.1 h
  have hleaves := Parser.Composed.program.leavesOff (Cursor.start tokens)
  rw [hrun] at hleaves
  obtain ⟨⟨ts, hspan⟩, htoken, hindex⟩ := hleaves
  have htokens : tokens = ts ++ c'.rest := hspan.rest
  have hlength : f.index = ts.length := by
    rw [hindex, hspan.index]
    exact Nat.zero_add _
  rw [htoken, hlength, htokens]
  refine ⟨?_, by simp⟩
  rw [List.getElem?_append_right (Nat.le_refl _), Nat.sub_self, List.head?_eq_getElem?]

theorem located_of_parse_error {text : String} {tokens : List Token} {f : GrammarFault}
    (htokens : Token.tokenize text = .ok tokens) (h : parse tokens = .error f) :
    Fault.Located text (.source (.grammatical f)) := by
  obtain ⟨hget, hle⟩ := getElem?_of_parse_error h
  cases htoken : f.token with
  | none =>
    rw [htoken, List.getElem?_eq_none_iff] at hget
    refine .finish htokens (by omega) htoken ?_
    rw [GrammarFault.diagnostic, htoken]
    rfl
  | some t =>
    rw [htoken] at hget
    obtain ⟨hlt, hmem⟩ := List.getElem?_eq_some_iff.1 hget
    obtain ⟨p, hp, htakes⟩ := (Token.maximalMunch_of_tokenize htokens).lexemes t
      (hmem ▸ List.getElem_mem hlt)
    refine .token htokens hlt hget htoken htakes.longest.start ?_
    rw [GrammarFault.diagnostic, htoken, ← hp]
    rfl

theorem LoweringFault.position_diagnostic (f : LoweringFault) : f.diagnostic.position = none := by
  cases f with
  | enum f => cases f <;> rfl
  | @valueMissing cause => cases cause <;> rfl
  | _ => rfl

theorem located_of_generate_error {text : String} {nodes : List Node} {s : Settings}
    {f : LoweringFault} (hnodes : parseSource text = .ok nodes) (h : generate s nodes = .error f) :
    Fault.Located text (.lowering f) := by
  refine .lowering ?_ f.position_diagnostic
  have hcases := Lowering.program_cases (s := s) (WellFormed.of_parseSource hnodes) {}
  rw [generate, lowerToLines] at h
  cases hrun : Lowering.program s nodes {} with
  | ok lines m =>
    rw [hrun] at h
    cases h
  | error f' m =>
    rw [hrun] at h hcases
    cases h
    exact hcases.2

/-- What a compilation can fail at: the tokens, the tree, or the code. -/
theorem compileText_error_cases {o : Options} {source : String} {fault : Fault}
    (h : compileText o source = .error fault) :
    (∃ f, Token.tokenize (o.prepare source) = .error f ∧ fault = .source (.lexical f)) ∨
      (∃ tokens f, Token.tokenize (o.prepare source) = .ok tokens ∧ parse tokens = .error f ∧
        fault = .source (.grammatical f)) ∨
      ∃ nodes f, parseSource (o.prepare source) = .ok nodes ∧
        generate o.toSettings nodes = .error f ∧ fault = .lowering f := by
  rw [compileText_eq] at h
  cases htokens : Token.tokenize (o.prepare source) with
  | error f =>
    rw [parseSource_of_lexFault htokens] at h
    cases h
    exact .inl ⟨f, rfl, rfl⟩
  | ok tokens =>
    rw [parseSource_of_tokenize htokens] at h ⊢
    cases hparse : parse tokens with
    | error f =>
      rw [hparse] at h
      cases h
      exact .inr (.inl ⟨tokens, f, rfl, hparse, rfl⟩)
    | ok nodes =>
      rw [hparse] at h
      have hfault : (generate o.toSettings nodes).mapError .lowering = .error fault := h
      cases hcode : generate o.toSettings nodes with
      | error f =>
        rw [hcode] at hfault
        cases hfault
        exact .inr (.inr ⟨nodes, f, rfl, hcode, rfl⟩)
      | ok code =>
        rw [hcode] at hfault
        cases hfault

theorem compileText_eq_lexFault_iff {o : Options} {source : String} {f : LexFault} :
    compileText o source = .error (.source (.lexical f)) ↔
      Token.tokenize (o.prepare source) = .error f := by
  constructor
  · intro h
    rcases compileText_error_cases h with ⟨f', htokens, heq⟩ | ⟨_, _, _, _, heq⟩ | ⟨_, _, _, _, heq⟩
    · cases heq
      exact htokens
    · cases heq
    · cases heq
  · intro h
    rw [compileText_eq, parseSource_of_lexFault h]
    rfl

/-- A source is compiled, or the fault has its place in the text that is read; and that an integer
has no value is the fault exactly if the first lexeme that makes no token is an integer of more than
4300 digits. -/
theorem compileText_located (o : Options) (source : String) :
    ((∃ code, compileText o source = .ok code) ∨
      ∃ fault, compileText o source = .error fault ∧ fault.Located (o.prepare source)) ∧
    ((∃ n, compileText o source = .error (.source (.lexical (.integerTooLong n)))) ↔
      ∃ place tokens digits, Token.MaximalMunch (o.prepare source).toList 0 place tokens ∧
        Token.Longest digits ((o.prepare source).toList.drop place) ∧
        (∀ d ∈ digits, d.isDigit = true) ∧ 4300 < digits.length) := by
  constructor
  · cases hcompile : compileText o source with
    | ok code => exact .inl ⟨code, rfl⟩
    | error fault =>
      refine .inr ⟨fault, rfl, ?_⟩
      rcases compileText_error_cases hcompile with
        ⟨f, htokens, rfl⟩ | ⟨tokens, f, htokens, hparse, rfl⟩ | ⟨nodes, f, hnodes, hcode, rfl⟩
      · obtain ⟨place, hstops⟩ := Token.tokenize_eq_error_iff.1 htokens
        exact hstops.located
      · exact located_of_parse_error htokens hparse
      · exact located_of_generate_error hnodes hcode
  · simp only [compileText_eq_lexFault_iff, Token.tokenize_eq_error_iff]
    constructor
    · rintro ⟨n, place, tokens, hmunch, hblocked⟩
      obtain ⟨digits, hlongest, hdigits, hlength⟩ := hblocked.exists_digits
      exact ⟨place, tokens, digits, hmunch, hlongest, hdigits, hlength⟩
    · rintro ⟨place, tokens, digits, hmunch, hlongest, hdigits, hlength⟩
      exact ⟨digits.length, place, tokens, hmunch, .tooLong hlongest hdigits hlength⟩

end SumLang
