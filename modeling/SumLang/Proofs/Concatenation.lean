import SumLang.Proofs.CorrectPrefix
import SumLang.Proofs.RoundTrip
import SumLang.Proofs.RuleSteps

/-! A program can be put before any text: the text behind it is read as if it stood alone, and its
faults only move by what stands before it. The reason is that a program ends in a mark, which no
text continues. -/
namespace SumLang

open Cursor (Spans)
open Grammar

/-! Places behind some tokens and characters. -/

def Token.shift (characters : Nat) (t : Token) : Token :=
  { t with position := t.position + characters }

def LexFault.shift (characters : Nat) : LexFault → LexFault
  | invalidCharacter c p => invalidCharacter c (p + characters)
  | unterminatedString p => unterminatedString (p + characters)
  | integerTooLong n => integerTooLong n

def GrammarFault.shift (tokens characters : Nat) (f : GrammarFault) : GrammarFault :=
  { f with token := f.token.map (Token.shift characters), index := f.index + tokens }

def SourceFault.shift (tokens characters : Nat) : SourceFault → SourceFault
  | lexical f => lexical (f.shift characters)
  | grammatical f => grammatical (f.shift tokens characters)

def Token.Closes (t : Token) : Prop := Is t .semicolon ∨ Is t .rightBrace

/-- There are no tokens, or the last of them ends a statement. -/
def Grammar.Ended (ts : List Token) : Prop := ∀ t ∈ ts.getLast?, t.Closes

namespace Grammar

theorem ended_nil : Ended [] := by
  simp [Ended]

theorem ended_concat (ts : List Token) {t : Token} (h : t.Closes) : Ended (ts ++ [t]) := by
  simpa [Ended] using h

theorem Ended.append {ts us : List Token} (h : Ended ts) (h' : Ended us) : Ended (ts ++ us) := by
  rcases List.eq_nil_or_concat us with rfl | ⟨us, t, rfl⟩
  · rwa [List.append_nil]
  · rw [List.concat_eq_append, ← List.append_assoc]
    exact ended_concat _ (h' t (by simp))

theorem Ended.of_cons {t : Token} {ts : List Token} (h : Ended (t :: ts)) :
    Ended ts ∧ (t.Closes ∨ ∃ u ∈ ts, u.Closes) := by
  rcases List.eq_nil_or_concat ts with rfl | ⟨us, u, rfl⟩
  · exact ⟨ended_nil, .inl (h t (by simp))⟩
  · have hu : u.Closes := h u (by simp [List.getLast?_cons])
    rw [List.concat_eq_append]
    exact ⟨ended_concat us hu, .inr ⟨u, by simp, hu⟩⟩

theorem ended_braced {α : Type} {item : List Token → α → Prop} (ts : List Token) {us : List Token}
    {as : List α} (h : Braced item us as) : Ended (ts ++ us) := by
  cases h with
  | @intro l vs r _ _ _ hr =>
    rw [← List.append_assoc]
    exact ended_concat _ (.inr hr)

theorem Statement.ended {ts : List Token} {n : Node} (h : Statement ts n) : Ended ts := by
  cases h with
  | function h => cases h with | intro _ _ hbody => exact ended_braced _ hbody
  | branch h => cases h with | intro _ _ hbody => exact ended_braced _ hbody
  | caseTest h => cases h with | intro _ _ _ _ _ _ _ _ _ _ hbody => exact ended_braced _ hbody
  | enumeration h =>
    cases h with | @intro k x _ _ _ _ _ hcases => exact ended_braced [k, x] hcases
  | declaration h =>
    cases h with
    | @bare k _ x _ colon t _ _ _ _ _ _ hstop =>
      exact ended_concat [k, x, colon, t] (.inl hstop)
    | initialized _ _ _ _ _ _ hstop => exact ended_concat _ (.inl hstop)
  | yield _ _ hstop => exact ended_concat _ (.inl hstop)
  | print _ _ hstop => exact ended_concat _ (.inl hstop)
  | expression _ hstop => exact ended_concat _ (.inl hstop)

theorem ended_of_program {ts : List Token} {nodes : List Node} (h : Program ts nodes) :
    Ended ts := by
  induction h with
  | nil => exact ended_nil
  | cons hn _ ih => exact hn.ended.append ih

end Grammar

namespace Token

/-- No word is a mark that ends a statement. -/
theorem not_closing_of_wordContent {w x : String} {s : Symbol}
    (h : wordContent w = .symbol s x) : s ≠ .semicolon ∧ s ≠ .rightBrace := by
  unfold wordContent at h
  split at h
  · next k hk =>
    obtain ⟨rfl, -⟩ := Content.symbol.inj h
    unfold Symbol.ofKeyword? at hk
    split at hk <;> simp at hk <;> subst hk <;> decide
  · split at h
    · simp at h
    · split at h
      · simp at h
      · obtain ⟨rfl, -⟩ := Content.symbol.inj h
        decide

variable {position : Nat} {w cs bs : List Char} {a : Content} {p : Int}

theorem Spells.closing {s : Symbol} {x : String} (h : Spells w (.symbol s x) p)
    (hs : s = .semicolon ∨ s = .rightBrace) : w = [';'] ∨ w = ['\x7d'] := by
  generalize ha : Content.symbol s x = a at h
  cases h with
  | word =>
    obtain ⟨hsemicolon, hbrace⟩ := not_closing_of_wordContent ha.symm
    rcases hs with hs | hs
    · exact absurd hs hsemicolon
    · exact absurd hs hbrace
  | @mark c s' p hm =>
    have hall : ∀ m ∈ marks, m.2.1 = .semicolon ∨ m.2.1 = .rightBrace →
        [m.1] = [';'] ∨ [m.1] = ['\x7d'] := by decide
    rw [(Content.symbol.inj ha).1] at hs
    exact hall _ hm hs
  | arrow =>
    rw [(Content.symbol.inj ha).1] at hs
    simp at hs
  | integer => cases ha
  | float => cases ha
  | string => cases ha

/-- A token that ends a statement is a mark in the text. -/
theorem closing_of_spells {t : Token} (hs : Spells w t.content p) (h : t.Closes) :
    w = [';'] ∨ w = ['\x7d'] := by
  rcases h with h | h
  · obtain ⟨x, hx⟩ := exists_content_of_isSymbol h
    exact (hx ▸ hs).closing (.inl rfl)
  · obtain ⟨x, hx⟩ := exists_content_of_isSymbol h
    exact (hx ▸ hs).closing (.inr rfl)

theorem boundary_closing {d : Char} (hd : d = ';' ∨ d = '\x7d') : Boundary (d :: cs) := by
  rw [boundary_cons]
  rcases hd with rfl | rfl <;> decide

/-- A lexeme does not grow if something is put behind a text that holds a mark further on. -/
theorem Longest.append_of_mem {d : Char} (h : Longest w (w ++ cs)) (hd : d ∈ cs)
    (hclosing : d = ';' ∨ d = '\x7d') : Longest w (w ++ (cs ++ bs)) := by
  obtain ⟨u, v, rfl⟩ := List.append_of_mem hd
  have hboundary : Boundary (d :: (v ++ bs)) := boundary_closing hclosing
  rw [List.append_assoc, List.cons_append]
  exact h.change_rest hboundary

theorem longest_closing (hw : w = [';'] ∨ w = ['\x7d']) : Longest w (w ++ cs) := by
  rcases hw with rfl | rfl
  · exact longest_mark (s := .semicolon) (p := -1) (by decide) (by simp)
  · exact longest_mark (s := .rightBrace) (p := -1) (by decide) (by simp)

/-- The mark of a token that ends a statement stands in the text. -/
theorem exists_mem_of_closes {t : Token} (ht : t ∈ (scanFrom position cs).1) (hclose : t.Closes) :
    ∃ d ∈ cs, d = ';' ∨ d = '\x7d' := by
  induction position, cs using scan_induction with
  | nil => simp [scanFrom_nil] at ht
  | space position c cs hc ih =>
    rw [scanFrom_space hc] at ht
    obtain ⟨d, hd, hclosing⟩ := ih ht
    exact ⟨d, List.mem_cons_of_mem c hd, hclosing⟩
  | token position w cs a p h ih =>
    rw [h.scanFrom_eq] at ht
    rcases List.mem_cons.1 ht with rfl | ht
    · rcases closing_of_spells h.spells hclose with rfl | rfl
      · exact ⟨';', by simp, .inl rfl⟩
      · exact ⟨'\x7d', by simp, .inr rfl⟩
    · obtain ⟨d, hd, hclosing⟩ := ih ht
      exact ⟨d, List.mem_append_right w hd, hclosing⟩
  | fault position cs f heq => simp [heq] at ht

/-- Behind tokens that end a statement a scan goes on as if it started there. -/
theorem scanFrom_append {ts : List Token} (h : scanFrom position cs = (ts, none)) (hts : Ended ts) :
    scanFrom position (cs ++ bs) = (ts ++ (scanFrom (position + cs.length) bs).1,
      (scanFrom (position + cs.length) bs).2) := by
  induction position, cs using scan_induction generalizing ts with
  | nil position =>
    obtain ⟨rfl, -⟩ := Prod.mk.inj (scanFrom_nil.symm.trans h)
    rfl
  | space position c cs hc ih =>
    rw [scanFrom_space hc] at h
    rw [List.cons_append, scanFrom_space hc, ih h hts, List.length_cons, Nat.add_right_comm,
      Nat.add_assoc]
  | token position w cs a p htakes ih =>
    rw [htakes.scanFrom_eq] at h
    obtain ⟨rfl, hnone⟩ := Prod.mk.inj h
    have hrest : scanFrom (position + w.length) cs =
        ((scanFrom (position + w.length) cs).1, none) := Prod.ext rfl hnone
    obtain ⟨hended, hclose⟩ := hts.of_cons
    -- Nothing continues the lexeme: it is itself a mark, or a mark stands further on.
    have hlongest : Longest w (w ++ (cs ++ bs)) := by
      rcases hclose with hclose | ⟨u, hu, hclose⟩
      · exact longest_closing (closing_of_spells htakes.spells hclose)
      · obtain ⟨d, hd, hclosing⟩ := exists_mem_of_closes hu hclose
        exact htakes.longest.append_of_mem hd hclosing
    have htakes' : Takes (w ++ (cs ++ bs)) w a p := ⟨hlongest, htakes.spells, htakes.limit⟩
    rw [List.append_assoc, htakes'.scanFrom_eq, ih hrest hended, List.length_append,
      ← Nat.add_assoc, List.cons_append]
  | fault position cs f heq =>
    rw [heq] at h
    cases h

theorem Blocked.shift {f : LexFault} (h : Blocked position cs f) (characters : Nat) :
    Blocked (position + characters) cs (f.shift characters) := by
  cases h with
  | unterminated hnone => exact .unterminated hnone
  | invalid hc hquote hnone => exact .invalid hc hquote hnone
  | tooLong hlongest hdigits hlen => exact .tooLong hlongest hdigits hlen

/-- Where a text stands matters for the places of its tokens and faults only. -/
theorem scanFrom_add (position characters : Nat) (cs : List Char) :
    scanFrom (position + characters) cs =
      ((scanFrom position cs).1.map (Token.shift characters),
        (scanFrom position cs).2.map (LexFault.shift characters)) := by
  induction position, cs using scan_induction with
  | nil => simp only [scanFrom_nil, List.map_nil, Option.map_none]
  | space position c cs hc ih => rw [scanFrom_space hc, scanFrom_space hc, Nat.add_right_comm, ih]
  | token position w cs a p h ih =>
    rw [h.scanFrom_eq, h.scanFrom_eq, Nat.add_right_comm, ih]
    simp [Token.shift]
  | fault position cs f heq hb =>
    rw [heq, (hb.shift characters).scanFrom_eq]
    rfl

end Token

namespace Parser

/-- A program is nothing, or a statement with a program behind it. -/
theorem run_program (c : Cursor) :
    program.run c = (do
      if (← peek).isNone then return []
      else do
        let s ← statement
        return s :: (← program)).run c := by
  have hfuel : c.fuel = 4 * c.rest.length + 3 + 1 := by
    unfold Cursor.fuel
    omega
  have hrun : program.run c = (programWith (4 * c.rest.length + 3 + 1)).run c := by
    rw [← hfuel]
    rfl
  rw [hrun, programWith]
  refine run_bind_congr rfl fun o c₁ ho => ?_
  obtain ⟨-, rfl⟩ := reads_peek.1 ho
  split
  · rfl
  refine run_bind_congr rfl fun e c₁ he => ?_
  have hlt := rest_lt_of_statement (reads_fueled.1 he)
  refine run_bind_congr (settles_programWith c₁ _ ?_) fun _ _ _ => rfl
  unfold Cursor.fuel
  omega

theorem run_bind_of_reads {α β : Type} {p : Parser α} {k : α → Parser β} {a : α} {c c₁ : Cursor}
    (h : Reads p c a c₁) : (p >>= k).run c = (k a).run c₁ := by
  unfold Reads at h
  rw [EStateM.run_bind, h]

/-- Behind the tokens of a program, reading goes on as if it started there. -/
theorem run_program_of_program {ts : List Token} {nodes : List Node} {c c' : Cursor}
    (h : Program ts nodes) (hn : NonnegPrecedence ts) (hspan : Spans c ts c') :
    program.run c = (do return nodes ++ (← program)).run c' := by
  induction h generalizing c with
  | nil =>
    rw [hspan.eq_of_nil]
    simp
  | @cons ts e us nodes he _ ih =>
    obtain ⟨c₁, hts, hus⟩ := hspan.split
    have hread : Reads statement c e c₁ := reads_statement he (hn.mono (by simp)) hts
    obtain ⟨t, ts, rfl, -⟩ := exists_cons_of_statement he
    have hpeek : Reads peek c (some t) c := reads_peek.2 ⟨hts.head, rfl⟩
    rw [run_program, run_bind_of_reads hpeek]
    simp only [Option.isNone_some, Bool.false_eq_true, if_false]
    rw [run_bind_of_reads hread, EStateM.run_bind, ih (hn.mono (by simp)) hus, EStateM.run_bind,
      EStateM.run_bind]
    cases program.run c' <;> rfl

end Parser

theorem GrammarFault.Beside.eq_shift {k characters : Nat} {f f' : GrammarFault}
    (h : f.Beside (fun t u => u = t.shift characters) k f') : f' = f.shift k characters := by
  obtain ⟨e, w, t, i, hint⟩ := f
  obtain ⟨e', w', t', i', hint'⟩ := f'
  obtain ⟨he, hw, hhint, ht, hi⟩ := h
  dsimp only at he hw hhint ht hi
  subst he hw hhint hi
  cases ht with
  | none => rfl
  | some ht => rw [ht]; rfl

/-- What stands behind a program is read as if it stood alone. -/
theorem parse_append {ts us : List Token} {nodes : List Node} (characters : Nat)
    (h : parse ts = .ok nodes) (hn : Parser.NonnegPrecedence ts) :
    parse (ts ++ us.map (Token.shift characters)) =
      ((parse us).map (nodes ++ ·)).mapError (GrammarFault.shift ts.length characters) := by
  have hspan : Spans (Cursor.start (ts ++ us.map (Token.shift characters))) ts
      ⟨ts.length, us.map (Token.shift characters)⟩ := ⟨rfl, (Nat.zero_add _).symm⟩
  have hrun := Parser.run_program_of_program (program_of_parse h) hn hspan
  -- Alone and behind the program, the tokens `us` are read side by side.
  have hbeside : (Cursor.start us).Beside (fun t u => u = t.shift characters) ts.length
      ⟨ts.length, us.map (Token.shift characters)⟩ := by
    refine ⟨(Nat.zero_add _).symm, ?_⟩
    exact List.forall₂_map_right_iff.2 (List.forall₂_same.2 fun t _ => rfl)
  rcases Parser.Composed.program.beside (fun t u htu => by rw [htu]; rfl) hbeside with
    ⟨more, c, c', hr, hr', -⟩ | ⟨f, f', hf, hf', hfault⟩
  · rw [parse_eq_ok.2 ⟨c, hr⟩]
    refine parse_eq_ok.2 ⟨c', ?_⟩
    exact hrun.trans (Parser.run_bind_of_reads hr')
  · rw [parse_eq_error.2 hf]
    have hfails : Parser.Fails (do return nodes ++ (← Parser.program)) _ f' :=
      Parser.fails_bind.2 (.inl hf')
    unfold Parser.Fails at hfails
    rw [← hrun, hfault.eq_shift] at hfails
    exact parse_eq_error.2 hfails

/-- A program put before a text adds its statements to those of the text, and otherwise only moves
the text's faults: by its tokens in the count of tokens and by its length in the text. -/
theorem parseSource_append (source text : String) (nodes : List Node)
    (h : parseSource source = .ok nodes) :
    ∃ tokens, Token.tokenize source = .ok tokens ∧
      parseSource (source ++ text) = ((parseSource text).map (nodes ++ ·)).mapError
        (SourceFault.shift tokens.length source.length) := by
  obtain ⟨ts, hts, hparse⟩ := exists_tokens_of_parseSource h
  refine ⟨ts, hts, ?_⟩
  have hsource : Token.scanFrom 0 source.toList = (ts, none) := Token.tokenize_eq_ok.1 hts
  have hn : Parser.NonnegPrecedence ts := by
    have hscan := nonnegPrecedence_scan source
    rwa [Token.tokenize_eq_ok.1 hts] at hscan
  have hscan : Token.scan (source ++ text) =
      (ts ++ (Token.scan text).1.map (Token.shift source.length),
        (Token.scan text).2.map (LexFault.shift source.length)) := by
    rw [Token.scan, String.toList_append,
      Token.scanFrom_append hsource (ended_of_program (program_of_parse hparse)),
      Token.scanFrom_add, String.length_toList]
    rfl
  cases htext : Token.tokenize text with
  | error fault =>
    have hfault : Token.tokenize (source ++ text) = .error (fault.shift source.length) := by
      rw [Token.tokenize_eq_error, hscan, Token.tokenize_eq_error.1 htext]
      rfl
    rw [parseSource_of_lexFault htext, parseSource_of_lexFault hfault]
    rfl
  | ok us =>
    have htokens : Token.tokenize (source ++ text) =
        .ok (ts ++ us.map (Token.shift source.length)) := by
      rw [Token.tokenize_eq_ok, hscan, Token.tokenize_eq_ok.1 htext]
      rfl
    rw [parseSource_of_tokenize htext, parseSource_of_tokenize htokens,
      parse_append source.length hparse hn]
    cases parse us <;> rfl

/-- A colon is missing behind `y`. The fault is at the third token, and behind two more tokens at
the fifth. -/
theorem parseSource_append_let :
    parseSource "x; " = .ok [.name "x"] ∧
      parseSource "let y 1;" = .error (.grammatical
        ⟨.character, some "':'", some ⟨.integer 1, "1", 6, -1⟩, 2, none⟩) ∧
      parseSource ("x; " ++ "let y 1;") = .error (.grammatical
        ⟨.character, some "':'", some ⟨.integer 1, "1", 9, -1⟩, 4, none⟩) := by
  have hsource : parseSource "x; " = .ok [.name "x"] := by decide +kernel
  have htext : parseSource "let y 1;" = .error (.grammatical
      ⟨.character, some "':'", some ⟨.integer 1, "1", 6, -1⟩, 2, none⟩) := by decide +kernel
  obtain ⟨ts, hts, happend⟩ := parseSource_append "x; " "let y 1;" [.name "x"] hsource
  have hlength : (Token.tokenize "x; ").map List.length = .ok 2 := by decide +kernel
  rw [hts] at hlength
  rw [htext, Except.ok.inj hlength] at happend
  exact ⟨hsource, htext, happend⟩

end SumLang
