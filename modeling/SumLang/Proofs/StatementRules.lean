import SumLang.Proofs.DeclarationRules

/-! The rules for statements and blocks read exactly what the grammar derives. -/
namespace SumLang.Parser

open Cursor (Spans spans_singleton)
open Grammar

variable {c c' : Cursor} {n : Nat}

section Sound

variable {block : Parser (List Node)} {S : List Token → Node → Prop}
  (hblock : ∀ {c body c'}, Reads block c body c' → ∃ ts, Braced S ts body ∧ Spans c ts c')
include hblock

theorem functionWith_of_reads {e : Node} (h : Reads (functionWith block) c e c') :
    ∃ ts, FunctionRule (Braced S) ts e ∧ Spans c ts c' := by
  unfold functionWith at h
  obtain ⟨u, c₁, hk, h⟩ := reads_bind.1 h
  obtain ⟨p, c₂, hp, h⟩ := reads_bind.1 h
  obtain ⟨body, c₃, hbody, h⟩ := reads_bind.1 h
  obtain ⟨rfl, rfl⟩ := reads_pure.1 h
  obtain ⟨k, hk, hspan₁⟩ := reads_expect.1 hk
  obtain ⟨ts, hts, hspan₂⟩ := reads_prototype.1 hp
  obtain ⟨us, hus, hspan₃⟩ := hblock hbody
  exact ⟨k :: ts ++ us, ⟨hk, hts, hus⟩, hspan₁.trans (hspan₂.trans hspan₃)⟩

theorem branchWith_of_reads {e : Node} (h : Reads (branchWith block) c e c') :
    ∃ ts, BranchRule (Braced S) ts e ∧ Spans c ts c' := by
  unfold branchWith at h
  obtain ⟨u, c₁, hk, h⟩ := reads_bind.1 h
  obtain ⟨condition, c₂, he, h⟩ := reads_bind.1 h
  obtain ⟨body, c₃, hbody, h⟩ := reads_bind.1 h
  obtain ⟨rfl, rfl⟩ := reads_pure.1 h
  obtain ⟨k, hk, hspan₁⟩ := reads_expect.1 hk
  obtain ⟨ts, hts, hspan₂⟩ := expression_of_reads he
  obtain ⟨us, hus, hspan₃⟩ := hblock hbody
  exact ⟨k :: ts ++ us, ⟨hk, hts, hus⟩, hspan₁.trans (hspan₂.trans hspan₃)⟩

theorem caseTestWith_of_reads {e : Node} (h : Reads (caseTestWith block) c e c') :
    ∃ ts, CaseTestRule (Braced S) ts e ∧ Spans c ts c' := by
  unfold caseTestWith at h
  obtain ⟨u, c₁, hk, h⟩ := reads_bind.1 h
  obtain ⟨u, c₂, hl, h⟩ := reads_bind.1 h
  obtain ⟨name, c₃, hx, h⟩ := reads_bind.1 h
  obtain ⟨u, c₄, hcolon, h⟩ := reads_bind.1 h
  obtain ⟨type, c₅, ht, h⟩ := reads_bind.1 h
  split at h
  · exact absurd h not_reads_fail
  next hb =>
  obtain ⟨u, c₆, hequal, h⟩ := reads_bind.1 h
  obtain ⟨u, c₇, hdot, h⟩ := reads_bind.1 h
  obtain ⟨case, c₈, hy, h⟩ := reads_bind.1 h
  obtain ⟨bindings, c₉, hvs, h⟩ := reads_bind.1 h
  obtain ⟨body, c₁₀, hbody, h⟩ := reads_bind.1 h
  obtain ⟨rfl, rfl⟩ := reads_pure.1 h
  obtain ⟨k, hk, hspan₁⟩ := reads_expect.1 hk
  obtain ⟨l, hl, hspan₂⟩ := reads_expect.1 hl
  obtain ⟨x, hx, hspan₃⟩ := reads_identifier.1 hx
  obtain ⟨colon, hcolon, hspan₄⟩ := reads_mark.1 hcolon
  obtain ⟨t, ht, hspan₅⟩ := reads_typeName.1 ht
  obtain ⟨equal, hequal, hspan₆⟩ := reads_mark.1 hequal
  obtain ⟨dot, hdot, hspan₇⟩ := reads_mark.1 hdot
  obtain ⟨y, hy, hspan₈⟩ := reads_identifier.1 hy
  obtain ⟨ts, hts, hspan₉, -⟩ := reads_optionalFormals.1 hvs
  obtain ⟨us, hus, hspan₁₀⟩ := hblock hbody
  refine ⟨k :: l :: x :: colon :: t :: equal :: dot :: y :: ts ++ us,
    ⟨hk, hl, hx, hcolon, ht, by simpa using hb, hequal, hdot, hy, hts, hus⟩, ?_⟩
  exact hspan₁.trans (hspan₂.trans (hspan₃.trans (hspan₄.trans (hspan₅.trans (hspan₆.trans
    (hspan₇.trans (hspan₈.trans (hspan₉.trans hspan₁₀))))))))

end Sound

section Complete

variable {block : Parser (List Node)} {S : List Token → Node → Prop} {ts : List Token} {e : Node}
  (hn : NonnegPrecedence ts) (hspan : Spans c ts c')
  (hblock : ∀ {us body c₁}, Braced S us body → us.length < ts.length → us ⊆ ts → Spans c₁ us c' →
    Reads block c₁ body c')
include hspan hblock

theorem reads_functionWith (h : FunctionRule (Braced S) ts e) :
    Reads (functionWith block) c e c' := by
  obtain ⟨hk, hp, hbody⟩ := h
  obtain ⟨c₁, hspan₁, hspan⟩ := hspan.uncons
  obtain ⟨c₂, hspan₂, hspan₃⟩ := hspan.split
  have hread := hblock hbody (by grind) (by grind) hspan₃
  unfold functionWith
  rw [(reads_expect.2 ⟨_, hk, hspan₁⟩).bind_iff, (reads_prototype.2 ⟨_, hp, hspan₂⟩).bind_iff,
    hread.bind_iff, reads_pure]
  exact ⟨rfl, rfl⟩

include hn in
theorem reads_branchWith (h : BranchRule (Braced S) ts e) : Reads (branchWith block) c e c' := by
  obtain ⟨hk, he, hbody⟩ := h
  obtain ⟨c₁, hspan₁, hspan⟩ := hspan.uncons
  obtain ⟨c₂, hspan₂, hspan₃⟩ := hspan.split
  have hread := hblock hbody (by grind) (by grind) hspan₃
  have hend : c₂.EndsExpression := by
    obtain ⟨hl, -, -⟩ := hbody
    exact hspan₃.endsExpression hl (by decide) (by decide)
  unfold branchWith
  rw [(reads_expect.2 ⟨_, hk, hspan₁⟩).bind_iff,
    (reads_expression he (hn.mono fun t ht => by simp [ht]) hspan₂ hend).bind_iff, hread.bind_iff,
    reads_pure]
  exact ⟨rfl, rfl⟩

theorem reads_caseTestWith (h : CaseTestRule (Braced S) ts e) :
    Reads (caseTestWith block) c e c' := by
  obtain ⟨hk, hl, hx, hcolon, ht, hb, hequal, hdot, hy, hvs, hbody⟩ := h
  obtain ⟨c₁, hspan₁, hspan⟩ := hspan.uncons
  obtain ⟨c₂, hspan₂, hspan⟩ := hspan.uncons
  obtain ⟨c₃, hspan₃, hspan⟩ := hspan.uncons
  obtain ⟨c₄, hspan₄, hspan⟩ := hspan.uncons
  obtain ⟨c₅, hspan₅, hspan⟩ := hspan.uncons
  obtain ⟨c₆, hspan₆, hspan⟩ := hspan.uncons
  obtain ⟨c₇, hspan₇, hspan⟩ := hspan.uncons
  obtain ⟨c₈, hspan₈, hspan⟩ := hspan.uncons
  obtain ⟨c₉, hspan₉, hspan₁₀⟩ := hspan.split
  have hread := hblock hbody (by grind) (by grind) hspan₁₀
  have hend : c₉.sees .leftParen = false := by
    obtain ⟨hl, -, -⟩ := hbody
    rw [hspan₁₀.sees_eq, Token.isSymbol_eq_false hl (by decide)]
  unfold caseTestWith
  rw [(reads_expect.2 ⟨_, hk, hspan₁⟩).bind_iff, (reads_expect.2 ⟨_, hl, hspan₂⟩).bind_iff,
    (reads_identifier.2 ⟨_, hx, hspan₃⟩).bind_iff, (reads_mark.2 ⟨_, hcolon, hspan₄⟩).bind_iff,
    (reads_typeName.2 ⟨_, ht, hspan₅⟩).bind_iff, if_neg (by simp [hb]),
    (reads_mark.2 ⟨_, hequal, hspan₆⟩).bind_iff, (reads_mark.2 ⟨_, hdot, hspan₇⟩).bind_iff,
    (reads_identifier.2 ⟨_, hy, hspan₈⟩).bind_iff,
    (reads_optionalFormals.2 ⟨_, hvs, hspan₉, fun _ => hend⟩).bind_iff, hread.bind_iff, reads_pure]
  exact ⟨rfl, rfl⟩

end Complete

theorem returnStatement_of_reads {e : Node} (h : Reads returnStatement c e c') :
    ∃ ts, Statement ts e ∧ Spans c ts c' := by
  unfold returnStatement at h
  obtain ⟨u, c₁, hk, h⟩ := reads_bind.1 h
  obtain ⟨value, c₂, he, h⟩ := reads_bind.1 h
  obtain ⟨u, c₃, hstop, h⟩ := reads_bind.1 h
  obtain ⟨rfl, rfl⟩ := reads_pure.1 h
  obtain ⟨k, hk, hspan₁⟩ := reads_expect.1 hk
  obtain ⟨ts, hts, hspan₂⟩ := expression_of_reads he
  obtain ⟨stop, hstop, hspan₃⟩ := reads_statementEnd.1 hstop
  exact ⟨k :: ts ++ [stop], .yield hk hts hstop, hspan₁.trans (hspan₂.trans hspan₃)⟩

theorem reads_returnStatement {k stop : Token} {ts : List Token} {e : Node} (hk : Is k .returnWord)
    (he : Expression ts e) (hstop : Is stop .semicolon) (hn : NonnegPrecedence ts)
    (hspan : Spans c (k :: ts ++ [stop]) c') : Reads returnStatement c (.yield e) c' := by
  obtain ⟨c₁, hspan₁, hspan⟩ := hspan.uncons
  obtain ⟨c₂, hspan₂, hspan₃⟩ := hspan.split
  have hend := hspan₃.endsExpression hstop (by decide) (by decide)
  unfold returnStatement
  rw [(reads_expect.2 ⟨_, hk, hspan₁⟩).bind_iff, (reads_expression he hn hspan₂ hend).bind_iff,
    (reads_statementEnd.2 ⟨_, hstop, hspan₃⟩).bind_iff, reads_pure]
  exact ⟨rfl, rfl⟩

theorem printStatement_of_reads {e : Node} (h : Reads printStatement c e c') :
    ∃ ts, Statement ts e ∧ Spans c ts c' := by
  unfold printStatement at h
  obtain ⟨u, c₁, hk, h⟩ := reads_bind.1 h
  obtain ⟨values, c₂, hes, h⟩ := reads_bind.1 h
  obtain ⟨u, c₃, hstop, h⟩ := reads_bind.1 h
  obtain ⟨rfl, rfl⟩ := reads_pure.1 h
  obtain ⟨k, hk, hspan₁⟩ := reads_expect.1 hk
  obtain ⟨ts, hts, hspan₂⟩ := arguments_of_reads hes
  obtain ⟨stop, hstop, hspan₃⟩ := reads_statementEnd.1 hstop
  exact ⟨k :: ts ++ [stop], .print hk hts hstop, hspan₁.trans (hspan₂.trans hspan₃)⟩

theorem reads_printStatement {k stop : Token} {ts : List Token} {es : List Node}
    (hk : Is k .printWord) (hes : Arguments ts es) (hstop : Is stop .semicolon)
    (hn : NonnegPrecedence ts) (hspan : Spans c (k :: ts ++ [stop]) c') :
    Reads printStatement c (.print es) c' := by
  obtain ⟨c₁, hspan₁, hspan⟩ := hspan.uncons
  obtain ⟨c₂, hspan₂, hspan₃⟩ := hspan.split
  unfold printStatement
  rw [(reads_expect.2 ⟨_, hk, hspan₁⟩).bind_iff, (reads_arguments hes hn hspan₂).bind_iff,
    (reads_statementEnd.2 ⟨_, hstop, hspan₃⟩).bind_iff, reads_pure]
  exact ⟨rfl, rfl⟩

theorem expressionStatement_of_reads {e : Node} (h : Reads expressionStatement c e c') :
    ∃ ts, Statement ts e ∧ Spans c ts c' := by
  unfold expressionStatement at h
  obtain ⟨value, c₁, he, h⟩ := reads_bind.1 h
  obtain ⟨u, c₂, hstop, h⟩ := reads_bind.1 h
  obtain ⟨rfl, rfl⟩ := reads_pure.1 h
  obtain ⟨ts, hts, hspan₁⟩ := expression_of_reads he
  obtain ⟨stop, hstop, hspan₂⟩ := reads_statementEnd.1 hstop
  exact ⟨ts ++ [stop], .expression hts hstop, hspan₁.trans hspan₂⟩

theorem reads_expressionStatement {stop : Token} {ts : List Token} {e : Node}
    (he : Expression ts e) (hstop : Is stop .semicolon) (hn : NonnegPrecedence ts)
    (hspan : Spans c (ts ++ [stop]) c') : Reads expressionStatement c e c' := by
  obtain ⟨c₁, hspan₁, hspan₂⟩ := hspan.split
  have hend := hspan₂.endsExpression hstop (by decide) (by decide)
  unfold expressionStatement
  rw [(reads_expression he hn hspan₁ hend).bind_iff,
    (reads_statementEnd.2 ⟨_, hstop, hspan₂⟩).bind_iff, reads_pure]
  exact ⟨rfl, rfl⟩

theorem reads_blockWith {body : List Node} :
    Reads (blockWith (n + 1)) c body c' ↔
      ∃ l c₁, Is l .leftBrace ∧ Spans c [l] c₁ ∧ Reads (statementsWith n) c₁ body c' := by
  rw [blockWith, reads_bind]
  constructor
  · rintro ⟨u, c₁, hl, h⟩
    obtain ⟨l, hl, hspan⟩ := reads_mark.1 hl
    exact ⟨l, c₁, hl, hspan, h⟩
  · rintro ⟨l, c₁, hl, hspan, h⟩
    exact ⟨(), c₁, reads_mark.2 ⟨l, hl, hspan⟩, h⟩

/-- One step through a block: the closing brace, or a statement. -/
theorem reads_statementsWith {body : List Node} :
    Reads (statementsWith (n + 1)) c body c' ↔
      if c.sees .rightBrace = true then [] = body ∧ c.next = c'
      else c.rest ≠ [] ∧ ∃ e c₁ body', Reads (statementWith n) c e c₁ ∧
        Reads (statementsWith n) c₁ body' c' ∧ e :: body' = body := by
  rw [statementsWith, reads_bind]
  constructor
  · rintro ⟨b, c₁, hb, h⟩
    cases b with
    | true =>
      obtain ⟨r, hr, hspan⟩ := reads_take?_true.1 hb
      obtain ⟨rfl, rfl⟩ := reads_pure.1 h
      rw [if_pos (by rw [hspan.sees_eq, hr])]
      exact ⟨rfl, (spans_singleton.1 hspan).2.symm⟩
    | false =>
      obtain ⟨hs, rfl⟩ := reads_take?_false.1 hb
      rw [if_neg (by simp), reads_peek_bind] at h
      split at h
      · exact absurd h not_reads_fail
      next hne =>
      obtain ⟨e, c₁, he, h⟩ := reads_bind.1 h
      obtain ⟨body', c₂, hbody, h⟩ := reads_bind.1 h
      obtain ⟨rfl, rfl⟩ := reads_pure.1 h
      rw [if_neg (by simp [hs])]
      exact ⟨by simpa using hne, e, c₁, body', he, hbody, rfl⟩
  · intro h
    split at h
    · next hs =>
      obtain ⟨r, hr, hspan⟩ := Cursor.exists_of_sees hs
      obtain ⟨rfl, rfl⟩ := h
      exact ⟨true, c.next, reads_take?_true.2 ⟨r, hr, hspan⟩, reads_pure.2 ⟨rfl, rfl⟩⟩
    · next hs =>
      obtain ⟨hne, e, c₁, body', he, hbody, rfl⟩ := h
      refine ⟨false, c, reads_take?_false.2 ⟨by simpa using hs, rfl⟩, ?_⟩
      rw [if_neg (by simp), reads_peek_bind, if_neg (by simpa using hne), he.bind_iff,
        hbody.bind_iff, reads_pure]
      exact ⟨rfl, rfl⟩

/-- With a given fuel, whatever the rules for statements read is derived by the grammar. -/
structure StatementsSound (n : Nat) : Prop where
  statement {c e c'} : Reads (statementWith n) c e c' → ∃ ts, Statement ts e ∧ Spans c ts c'
  block {c body c'} : Reads (blockWith n) c body c' → ∃ ts, Block ts body ∧ Spans c ts c'
  statements {c body c'} : Reads (statementsWith n) c body c' →
    ∃ ts r, Repeated Statement ts body ∧ Is r .rightBrace ∧ Spans c (ts ++ [r]) c'

namespace StatementsSound

theorem statement_succ (h : StatementsSound n) {e : Node}
    (hr : Reads (statementWith (n + 1)) c e c') : ∃ ts, Statement ts e ∧ Spans c ts c' := by
  rw [statementWith, reads_peek_bind] at hr
  split at hr
  · obtain ⟨ts, hts, hspan⟩ := functionWith_of_reads h.block hr
    exact ⟨ts, .function hts, hspan⟩
  · rw [reads_isNext_bind] at hr
    split at hr
    · obtain ⟨ts, hts, hspan⟩ := caseTestWith_of_reads h.block hr
      exact ⟨ts, .caseTest hts, hspan⟩
    · obtain ⟨ts, hts, hspan⟩ := branchWith_of_reads h.block hr
      exact ⟨ts, .branch hts, hspan⟩
  · obtain ⟨ts, d, hts, hspan, rfl⟩ := reads_enumDefinition.1 hr
    exact ⟨ts, .enumeration hts, hspan⟩
  · obtain ⟨ts, hts, hspan⟩ := declaration_of_reads hr
    exact ⟨ts, .declaration hts, hspan⟩
  · obtain ⟨ts, hts, hspan⟩ := declaration_of_reads hr
    exact ⟨ts, .declaration hts, hspan⟩
  · exact returnStatement_of_reads hr
  · exact printStatement_of_reads hr
  · exact expressionStatement_of_reads hr

theorem block_succ (h : StatementsSound n) {body : List Node}
    (hr : Reads (blockWith (n + 1)) c body c') : ∃ ts, Block ts body ∧ Spans c ts c' := by
  obtain ⟨l, c₁, hl, hspan, hbody⟩ := reads_blockWith.1 hr
  obtain ⟨ts, r, hts, hr, hspan₁⟩ := h.statements hbody
  exact ⟨l :: ts ++ [r], .intro hl hts hr, hspan.trans hspan₁⟩

theorem statements_succ (h : StatementsSound n) {body : List Node}
    (hr : Reads (statementsWith (n + 1)) c body c') :
    ∃ ts r, Repeated Statement ts body ∧ Is r .rightBrace ∧ Spans c (ts ++ [r]) c' := by
  have hr := reads_statementsWith.1 hr
  split at hr
  · next hs =>
    obtain ⟨r, hr', hspan⟩ := Cursor.exists_of_sees hs
    obtain ⟨rfl, rfl⟩ := hr
    exact ⟨[], r, .nil, hr', hspan⟩
  · obtain ⟨-, e, c₁, body', he, hbody, rfl⟩ := hr
    obtain ⟨ts, hts, hspan⟩ := h.statement he
    obtain ⟨us, r, hus, hr', hspan₁⟩ := h.statements hbody
    refine ⟨ts ++ us, r, .cons hts hus, hr', ?_⟩
    simpa using hspan.trans hspan₁

end StatementsSound

theorem statementsSound (n : Nat) : StatementsSound n := by
  induction n with
  | zero =>
    exact ⟨fun h => absurd h not_reads_fail, fun h => absurd h not_reads_fail,
      fun h => absurd h not_reads_fail⟩
  | succ n ih => exact ⟨ih.statement_succ, ih.block_succ, ih.statements_succ⟩

theorem exists_cons_of_declaration {ts : List Token} {e : Node} (h : DeclarationRule ts e) :
    ∃ k us, ts = k :: us ∧ (Is k .letWord ∨ Is k .varWord) := by
  have hkeyword : ∀ {k m}, IsMutability k m → Is k .letWord ∨ Is k .varWord := by
    rintro k m (hk | hk)
    · exact .inl hk
    · exact .inr hk
  cases h with
  | bare hk => exact ⟨_, _, rfl, hkeyword hk⟩
  | initialized hk => exact ⟨_, _, rfl, hkeyword hk⟩

theorem exists_cons_of_statement {ts : List Token} {e : Node} (h : Statement ts e) :
    ∃ t us, ts = t :: us ∧ t.isSymbol .rightBrace = false := by
  cases h with
  | function h =>
    obtain ⟨hk, -, -⟩ := h
    exact ⟨_, _, rfl, Token.isSymbol_eq_false hk (by decide)⟩
  | branch h =>
    obtain ⟨hk, -, -⟩ := h
    exact ⟨_, _, rfl, Token.isSymbol_eq_false hk (by decide)⟩
  | caseTest h =>
    obtain ⟨hk, -⟩ := h
    exact ⟨_, _, rfl, Token.isSymbol_eq_false hk (by decide)⟩
  | enumeration h =>
    obtain ⟨hk, -⟩ := h
    exact ⟨_, _, rfl, Token.isSymbol_eq_false hk (by decide)⟩
  | declaration h =>
    obtain ⟨k, us, rfl, hk | hk⟩ := exists_cons_of_declaration h
    · exact ⟨_, _, rfl, Token.isSymbol_eq_false hk (by decide)⟩
    · exact ⟨_, _, rfl, Token.isSymbol_eq_false hk (by decide)⟩
  | yield hk => exact ⟨_, _, rfl, Token.isSymbol_eq_false hk (by decide)⟩
  | print hk => exact ⟨_, _, rfl, Token.isSymbol_eq_false hk (by decide)⟩
  | expression he =>
    obtain ⟨t, us, rfl, ht⟩ := exists_cons_of_expression he
    exact ⟨t, _, rfl, startsOperand_isSymbol ht (by decide) (by decide)⟩

/-- With a given fuel, the rules for statements read all statements of the grammar that are short
enough. -/
structure StatementsComplete (n : Nat) : Prop where
  statement {ts e c c'} : Statement ts e → NonnegPrecedence ts → Spans c ts c' →
    3 * ts.length ≤ n → Reads (statementWith n) c e c'
  block {ts body c c'} : Block ts body → NonnegPrecedence ts → Spans c ts c' →
    3 * ts.length ≤ n → Reads (blockWith n) c body c'
  statements {ts r body c c'} : Repeated Statement ts body → Is r .rightBrace →
    NonnegPrecedence ts → Spans c (ts ++ [r]) c' → 3 * (ts.length + 1) ≤ n →
    Reads (statementsWith n) c body c'

namespace StatementsComplete

theorem statement_succ (h : StatementsComplete n) {ts : List Token} {e : Node} (he : Statement ts e)
    (hn : NonnegPrecedence ts) (hspan : Spans c ts c') (hfuel : 3 * ts.length ≤ n + 1) :
    Reads (statementWith (n + 1)) c e c' := by
  have hblock : ∀ {us body c₁}, Block us body → us.length < ts.length → us ⊆ ts →
      Spans c₁ us c' → Reads (blockWith n) c₁ body c' :=
    fun hus hlen hsub hspan' => h.block hus (hn.mono hsub) hspan' (by omega)
  rw [statementWith, reads_peek_bind]
  cases he with
  | function hf =>
    have hread := reads_functionWith hspan hblock hf
    obtain ⟨hk, -, -⟩ := hf
    simp only [hspan.head, Option.bind_some, Token.isSymbol_iff.1 hk]
    exact hread
  | branch hb =>
    have hread := reads_branchWith hn hspan hblock hb
    obtain ⟨hk, he, -⟩ := hb
    obtain ⟨t, us, rfl, ht⟩ := exists_cons_of_expression he
    obtain ⟨c₁, hspan₁, hspan₂⟩ := hspan.uncons
    have hnext : c.next.sees .letWord = false := by
      rw [← (spans_singleton.1 hspan₁).2, hspan₂.sees_eq,
        startsOperand_isSymbol ht (by decide) (by decide)]
    simp only [hspan.head, Option.bind_some, Token.isSymbol_iff.1 hk, reads_isNext_bind, hnext]
    exact hread
  | caseTest hc =>
    have hread := reads_caseTestWith hspan hblock hc
    obtain ⟨hk, hl⟩ := hc
    obtain ⟨c₁, hspan₁, hspan₂⟩ := hspan.uncons
    have hnext : c.next.sees .letWord = true := by
      rw [← (spans_singleton.1 hspan₁).2, hspan₂.sees_eq, hl]
    simp only [hspan.head, Option.bind_some, Token.isSymbol_iff.1 hk, reads_isNext_bind, hnext]
    exact hread
  | enumeration hd =>
    have hread := reads_enumDefinition.2 ⟨_, _, hd, hspan, rfl⟩
    obtain ⟨hk, -, -⟩ := hd
    simp only [hspan.head, Option.bind_some, Token.isSymbol_iff.1 hk]
    exact hread
  | declaration hd =>
    have hread := reads_declaration hd hn hspan
    obtain ⟨k, us, rfl, hk⟩ := exists_cons_of_declaration hd
    rcases hk with hk | hk
    · simp only [hspan.head, Option.bind_some, Token.isSymbol_iff.1 hk]
      exact hread
    · simp only [hspan.head, Option.bind_some, Token.isSymbol_iff.1 hk]
      exact hread
  | yield hk he hstop =>
    simp only [hspan.head, Option.bind_some, Token.isSymbol_iff.1 hk]
    exact reads_returnStatement hk he hstop (hn.mono fun t ht => by simp [ht]) hspan
  | print hk hes hstop =>
    simp only [hspan.head, Option.bind_some, Token.isSymbol_iff.1 hk]
    exact reads_printStatement hk hes hstop (hn.mono fun t ht => by simp [ht]) hspan
  | expression he hstop =>
    have hread := reads_expressionStatement he hstop (hn.mono fun t ht => by simp [ht]) hspan
    obtain ⟨t, us, rfl, ht⟩ := exists_cons_of_expression he
    rcases symbol?_of_startsOperand ht with hs | hs | hs
    all_goals
      simp only [hspan.head, Option.bind_some, hs]
      exact hread

theorem block_succ (h : StatementsComplete n) {ts : List Token} {body : List Node}
    (hb : Block ts body) (hn : NonnegPrecedence ts) (hspan : Spans c ts c')
    (hfuel : 3 * ts.length ≤ n + 1) : Reads (blockWith (n + 1)) c body c' := by
  cases hb with
  | @intro l ts r body hl hbody hr =>
    obtain ⟨c₁, hspan₁, hspan₂⟩ := hspan.uncons
    simp only [List.length_cons, List.length_append, List.length_nil] at hfuel
    exact reads_blockWith.2 ⟨l, c₁, hl, hspan₁,
      h.statements hbody hr (hn.mono (by simp)) hspan₂ (by omega)⟩

theorem statements_succ (h : StatementsComplete n) {ts : List Token} {r : Token} {body : List Node}
    (hb : Repeated Statement ts body) (hr : Is r .rightBrace) (hn : NonnegPrecedence ts)
    (hspan : Spans c (ts ++ [r]) c') (hfuel : 3 * (ts.length + 1) ≤ n + 1) :
    Reads (statementsWith (n + 1)) c body c' := by
  refine reads_statementsWith.2 ?_
  cases hb with
  | nil =>
    rw [if_pos (by rw [hspan.sees_eq, hr])]
    exact ⟨rfl, (spans_singleton.1 hspan).2.symm⟩
  | @cons us e vs body he hbody =>
    rw [List.append_assoc] at hspan
    obtain ⟨c₁, hspan₁, hspan₂⟩ := hspan.split
    simp only [List.length_append] at hfuel
    have hread := h.statement he (hn.mono (by simp)) hspan₁ (by omega)
    obtain ⟨t, us, rfl, ht⟩ := exists_cons_of_statement he
    simp only [List.length_cons] at hfuel
    have hrest := h.statements hbody hr (hn.mono (by simp)) hspan₂ (by omega)
    rw [if_neg (by simp [hspan₁.sees_eq, ht])]
    exact ⟨by simp [hspan₁.rest], e, c₁, body, hread, hrest, rfl⟩

end StatementsComplete

theorem statementsComplete (n : Nat) : StatementsComplete n := by
  induction n with
  | zero =>
    refine ⟨fun he _ _ hfuel => ?_, fun hb _ _ hfuel => ?_, fun _ _ _ _ hfuel => ?_⟩
    · obtain ⟨t, us, rfl, -⟩ := exists_cons_of_statement he
      simp at hfuel
    · cases hb
      simp at hfuel
    · omega
  | succ n ih => exact ⟨ih.statement_succ, ih.block_succ, ih.statements_succ⟩

theorem reads_statement {ts : List Token} {e : Node} (h : Statement ts e) (hn : NonnegPrecedence ts)
    (hspan : Spans c ts c') : Reads statement c e c' := by
  have hlen := hspan.length_le
  refine reads_fueled.2 ((statementsComplete c.fuel).statement h hn hspan ?_)
  unfold Cursor.fuel
  omega

theorem statement_of_reads {e : Node} (h : Reads statement c e c') :
    ∃ ts, Statement ts e ∧ Spans c ts c' :=
  (statementsSound c.fuel).statement (reads_fueled.1 h)

end SumLang.Parser
