import SumLang.Grammar.Statement
import SumLang.Proofs.ExpressionCompleteness
import SumLang.Proofs.ExpressionSoundness

/-! The rules for formals, prototypes, declarations and enums read exactly what the grammar
derives. -/
namespace SumLang.Parser

open Cursor (Spans spans_singleton)
open Grammar

variable {c c' : Cursor} {n : Nat}

theorem reads_formal {v : Variable} :
    Reads formal c v c' ↔ ∃ ts, Formal ts v ∧ Spans c ts c' := by
  unfold formal
  constructor
  · intro h
    obtain ⟨name, c₁, hx, h⟩ := reads_bind.1 h
    obtain ⟨u, c₂, hcolon, h⟩ := reads_bind.1 h
    obtain ⟨type, c₃, ht, h⟩ := reads_bind.1 h
    obtain ⟨rfl, rfl⟩ := reads_pure.1 h
    obtain ⟨x, hx, hspan₁⟩ := reads_identifier.1 hx
    obtain ⟨colon, hcolon, hspan₂⟩ := reads_mark.1 hcolon
    obtain ⟨t, ht, hspan₃⟩ := reads_typeName.1 ht
    exact ⟨[x, colon, t], ⟨hx, hcolon, ht⟩, hspan₁.trans (hspan₂.trans hspan₃)⟩
  · rintro ⟨ts, ⟨hx, hcolon, ht⟩, hspan⟩
    obtain ⟨c₁, hspan₁, hspan⟩ := hspan.uncons
    obtain ⟨c₂, hspan₂, hspan₃⟩ := hspan.uncons
    rw [(reads_identifier.2 ⟨_, hx, hspan₁⟩).bind_iff, (reads_mark.2 ⟨_, hcolon, hspan₂⟩).bind_iff,
      (reads_typeName.2 ⟨_, ht, hspan₃⟩).bind_iff, reads_pure]
    exact ⟨rfl, rfl⟩

theorem exists_cons_of_formal {ts : List Token} {v : Variable} (h : Formal ts v) :
    ∃ x us, ts = x :: us ∧ Is x .identifier := by
  cases h with
  | intro hx => exact ⟨_, _, rfl, Token.isSymbol_of_content hx⟩

theorem exists_cons_of_formalItems {ts : List Token} {vs : List Variable}
    (h : Separated Formal ts vs) : ∃ x us, ts = x :: us ∧ Is x .identifier := by
  cases h with
  | last hv => exact exists_cons_of_formal hv
  | cons hv =>
    obtain ⟨x, us, rfl, hx⟩ := exists_cons_of_formal hv
    exact ⟨x, _, rfl, hx⟩

theorem formalItems_of_reads {vs : List Variable} (h : Reads (formalItems n) c vs c') :
    ∃ ts r, Separated Formal ts vs ∧ Is r .rightParen ∧ Spans c (ts ++ [r]) c' := by
  induction n generalizing c vs c' with
  | zero => exact absurd h not_reads_fail
  | succ n ih =>
    rw [formalItems] at h
    exact separated_of_reads (fun hv => reads_formal.1 hv) ih h

theorem reads_formalItems {ts : List Token} {r : Token} {vs : List Variable}
    (h : Separated Formal ts vs) (hr : Is r .rightParen) (hspan : Spans c (ts ++ [r]) c')
    (hfuel : ts.length ≤ n) : Reads (formalItems n) c vs c' := by
  induction n generalizing ts c vs with
  | zero =>
    obtain ⟨x, us, rfl, -⟩ := exists_cons_of_formalItems h
    simp at hfuel
  | succ n ih =>
    rw [formalItems]
    refine reads_of_separated h hr hspan (fun hv _ _ hspan' _ => reads_formal.2 ⟨_, hv, hspan'⟩)
      fun hus _ hlen hspan' => ih hus hspan' (by omega)

theorem reads_formals {vs : List Variable} :
    Reads formals c vs c' ↔ ∃ ts, Formals ts vs ∧ Spans c ts c' := by
  constructor
  · intro h
    exact parenthesized_of_reads (fun hv => formalItems_of_reads (reads_fueled.1 hv)) h
  · rintro ⟨ts, h, hspan⟩
    refine reads_of_parenthesized h hspan (fun hus => ?_) fun hus hr _ _ hspan' => ?_
    · obtain ⟨x, us, rfl, hx⟩ := exists_cons_of_formalItems hus
      exact ⟨x, us, rfl, Token.isSymbol_eq_false hx (by decide)⟩
    · have hlen := hspan'.length_le
      rw [List.length_append, List.length_singleton] at hlen
      refine reads_fueled.2 (reads_formalItems hus hr hspan' ?_)
      unfold Cursor.fuel
      omega

/-- A list of formals is read where it starts, and is empty elsewhere. -/
theorem reads_optionalFormals {vs : List Variable} :
    Reads optionalFormals c vs c' ↔
      ∃ ts, Optional Formals ts vs ∧ Spans c ts c' ∧ (ts = [] → c'.sees .leftParen = false) := by
  rw [optionalFormals, reads_isAt_bind]
  constructor
  · intro h
    split at h
    · next hs =>
      obtain ⟨ts, hts, hspan⟩ := reads_formals.1 h
      exact ⟨ts, .some hts, hspan, by rintro rfl; cases hts⟩
    · next hs =>
      obtain ⟨rfl, rfl⟩ := reads_pure.1 h
      exact ⟨[], .none, .refl c, by simpa using hs⟩
  · rintro ⟨ts, h, hspan, hend⟩
    cases h with
    | none =>
      obtain rfl := hspan.eq_of_nil
      simp [hend rfl]
    | some h =>
      rw [if_pos (sees_leftParen_of_parenthesized h hspan)]
      exact reads_formals.2 ⟨ts, h, hspan⟩

theorem reads_prototype {p : Prototype} :
    Reads prototype c p c' ↔ ∃ ts, PrototypeRule ts p ∧ Spans c ts c' := by
  unfold prototype
  constructor
  · intro h
    obtain ⟨name, c₁, hx, h⟩ := reads_bind.1 h
    obtain ⟨vs, c₂, hvs, h⟩ := reads_bind.1 h
    obtain ⟨u, c₃, harrow, h⟩ := reads_bind.1 h
    obtain ⟨type, c₄, ht, h⟩ := reads_bind.1 h
    obtain ⟨rfl, rfl⟩ := reads_pure.1 h
    obtain ⟨x, hx, hspan₁⟩ := reads_identifier.1 hx
    obtain ⟨ts, hts, hspan₂⟩ := reads_formals.1 hvs
    obtain ⟨arrow, harrow, hspan₃⟩ := reads_mark.1 harrow
    obtain ⟨t, ht, hspan₄⟩ := reads_typeName.1 ht
    refine ⟨x :: ts ++ [arrow, t], ⟨hx, hts, harrow, ht⟩, ?_⟩
    exact hspan₁.trans (hspan₂.trans (hspan₃.trans hspan₄))
  · rintro ⟨ts, ⟨hx, hts, harrow, ht⟩, hspan⟩
    obtain ⟨c₁, hspan₁, hspan⟩ := hspan.uncons
    obtain ⟨c₂, hspan₂, hspan⟩ := hspan.split
    obtain ⟨c₃, hspan₃, hspan₄⟩ := hspan.uncons
    rw [(reads_identifier.2 ⟨_, hx, hspan₁⟩).bind_iff, (reads_formals.2 ⟨_, hts, hspan₂⟩).bind_iff,
      (reads_mark.2 ⟨_, harrow, hspan₃⟩).bind_iff, (reads_typeName.2 ⟨_, ht, hspan₄⟩).bind_iff,
      reads_pure]
    exact ⟨rfl, rfl⟩

theorem construction_of_reads {type : String} {e : Node} (h : Reads (construction type) c e c') :
    ∃ ts, Initializer type ts e ∧ Spans c ts c' := by
  unfold construction at h
  split at h
  · exact absurd h not_reads_fail
  · next hb =>
    obtain ⟨u, c₁, hdot, h⟩ := reads_bind.1 h
    obtain ⟨case, c₂, hx, h⟩ := reads_bind.1 h
    obtain ⟨dot, hdot, hspan₁⟩ := reads_mark.1 hdot
    obtain ⟨x, hx, hspan₂⟩ := reads_identifier.1 hx
    have hb : isBuiltinType type = false := by simpa using hb
    rw [reads_isAt_bind] at h
    split at h
    · obtain ⟨as, c₃, has, h⟩ := reads_bind.1 h
      obtain ⟨rfl, rfl⟩ := reads_pure.1 h
      obtain ⟨ts, hts, hspan₃⟩ := arguments_of_reads has
      exact ⟨dot :: x :: ts, .construction hb hdot hx (.some hts),
        hspan₁.trans (hspan₂.trans hspan₃)⟩
    · obtain ⟨rfl, rfl⟩ := reads_pure.1 h
      exact ⟨[dot, x], .construction hb hdot hx .none, hspan₁.trans hspan₂⟩

theorem reads_construction {type : String} {dot x : Token} {case : String} {ts : List Token}
    {as : List Node} (hb : isBuiltinType type = false) (hdot : Is dot .period) (hx : IsName x case)
    (has : Optional Arguments ts as) (hn : NonnegPrecedence ts)
    (hspan : Spans c (dot :: x :: ts) c') (hend : c'.sees .leftParen = false) :
    Reads (construction type) c (.construct type case as) c' := by
  obtain ⟨c₁, hspan₁, hspan⟩ := hspan.uncons
  obtain ⟨c₂, hspan₂, hspan₃⟩ := hspan.uncons
  unfold construction
  rw [if_neg (by simp [hb]), (reads_mark.2 ⟨_, hdot, hspan₁⟩).bind_iff,
    (reads_identifier.2 ⟨_, hx, hspan₂⟩).bind_iff, reads_isAt_bind]
  cases has with
  | none =>
    obtain rfl := hspan₃.eq_of_nil
    simp [hend]
  | some has =>
    have hs := sees_leftParen_of_parenthesized has hspan₃
    rw [if_pos hs, (reads_arguments has hn hspan₃).bind_iff, reads_pure]
    exact ⟨rfl, rfl⟩

theorem reads_mutability {m : Mutability} :
    Reads mutability c m c' ↔ ∃ t, IsMutability t m ∧ Spans c [t] c' := by
  unfold mutability
  constructor
  · intro h
    obtain ⟨b, c₁, hb, h⟩ := reads_bind.1 h
    cases b with
    | true =>
      obtain ⟨t, ht, hspan⟩ := reads_take?_true.1 hb
      obtain ⟨rfl, rfl⟩ := reads_pure.1 h
      exact ⟨t, .immutable ht, hspan⟩
    | false =>
      obtain ⟨hs, rfl⟩ := reads_take?_false.1 hb
      obtain ⟨b, c₁, hb, h⟩ := reads_bind.1 h
      cases b with
      | true =>
        obtain ⟨t, ht, hspan⟩ := reads_take?_true.1 hb
        obtain ⟨rfl, rfl⟩ := reads_pure.1 h
        exact ⟨t, .mutable ht, hspan⟩
      | false => exact absurd h not_reads_fail
  · rintro ⟨t, ht, hspan⟩
    cases ht with
    | immutable ht =>
      rw [(reads_take?_true.2 ⟨t, ht, hspan⟩).bind_iff, if_pos rfl, reads_pure]
      exact ⟨rfl, rfl⟩
    | mutable ht =>
      have hs : c.sees .letWord = false := by
        rw [hspan.sees_eq, Token.isSymbol_eq_false ht (by decide)]
      rw [(reads_take?_false.2 ⟨hs, rfl⟩).bind_iff, if_neg (by simp),
        (reads_take?_true.2 ⟨t, ht, hspan⟩).bind_iff, if_pos rfl, reads_pure]
      exact ⟨rfl, rfl⟩

theorem declaration_of_reads {e : Node} (h : Reads declaration c e c') :
    ∃ ts, DeclarationRule ts e ∧ Spans c ts c' := by
  unfold declaration at h
  obtain ⟨m, c₁, hk, h⟩ := reads_bind.1 h
  obtain ⟨name, c₂, hx, h⟩ := reads_bind.1 h
  obtain ⟨u, c₃, hcolon, h⟩ := reads_bind.1 h
  obtain ⟨type, c₄, ht, h⟩ := reads_bind.1 h
  obtain ⟨b, c₅, hb, h⟩ := reads_bind.1 h
  obtain ⟨k, hk, hspan₁⟩ := reads_mutability.1 hk
  obtain ⟨x, hx, hspan₂⟩ := reads_identifier.1 hx
  obtain ⟨colon, hcolon, hspan₃⟩ := reads_mark.1 hcolon
  obtain ⟨t, ht, hspan₄⟩ := reads_typeName.1 ht
  have hhead : Spans c [k, x, colon, t] c₄ :=
    hspan₁.trans (hspan₂.trans (hspan₃.trans hspan₄))
  cases b with
  | true =>
    obtain ⟨stop, hstop, hspan₅⟩ := reads_take?_true.1 hb
    obtain ⟨rfl, rfl⟩ := reads_pure.1 h
    exact ⟨[k, x, colon, t, stop], .bare hk hx hcolon ht hstop, hhead.trans hspan₅⟩
  | false =>
    obtain ⟨-, rfl⟩ := reads_take?_false.1 hb
    obtain ⟨u, c₅, hequal, h⟩ := reads_bind.1 h
    obtain ⟨equal, hequal, hspan₅⟩ := reads_mark.1 hequal
    rw [reads_isAt_bind] at h
    obtain ⟨ts, value, c₆, hvalue, hspan₆, h⟩ : ∃ ts value c₆, Initializer type ts value ∧
        Spans c₅ ts c₆ ∧
        Reads (do statementEnd; return .assign ⟨m, type, name⟩ value) c₆ e c' := by
      split at h
      · obtain ⟨value, c₆, hvalue, h⟩ := reads_bind.1 h
        obtain ⟨ts, hts, hspan₆⟩ := construction_of_reads hvalue
        exact ⟨ts, value, c₆, hts, hspan₆, h⟩
      · obtain ⟨value, c₆, hvalue, h⟩ := reads_bind.1 h
        obtain ⟨ts, hts, hspan₆⟩ := expression_of_reads hvalue
        exact ⟨ts, value, c₆, .expression hts, hspan₆, h⟩
    obtain ⟨u, c₇, hstop, h⟩ := reads_bind.1 h
    obtain ⟨rfl, rfl⟩ := reads_pure.1 h
    obtain ⟨stop, hstop, hspan₇⟩ := reads_statementEnd.1 hstop
    exact ⟨k :: x :: colon :: t :: equal :: ts ++ [stop],
      .initialized hk hx hcolon ht hequal hvalue hstop,
      hhead.trans (hspan₅.trans (hspan₆.trans hspan₇))⟩

theorem reads_declaration {ts : List Token} {e : Node} (h : DeclarationRule ts e)
    (hn : NonnegPrecedence ts) (hspan : Spans c ts c') : Reads declaration c e c' := by
  unfold declaration
  cases h with
  | bare hk hx hcolon ht hstop =>
    obtain ⟨c₁, hspan₁, hspan⟩ := hspan.uncons
    obtain ⟨c₂, hspan₂, hspan⟩ := hspan.uncons
    obtain ⟨c₃, hspan₃, hspan⟩ := hspan.uncons
    obtain ⟨c₄, hspan₄, hspan₅⟩ := hspan.uncons
    rw [(reads_mutability.2 ⟨_, hk, hspan₁⟩).bind_iff,
      (reads_identifier.2 ⟨_, hx, hspan₂⟩).bind_iff, (reads_mark.2 ⟨_, hcolon, hspan₃⟩).bind_iff,
      (reads_typeName.2 ⟨_, ht, hspan₄⟩).bind_iff,
      (reads_take?_true.2 ⟨_, hstop, hspan₅⟩).bind_iff, if_pos rfl, reads_pure]
    exact ⟨rfl, rfl⟩
  | @initialized k m x name colon t type equal ts value stop hk hx hcolon ht hequal hvalue hstop =>
    obtain ⟨c₁, hspan₁, hspan⟩ := hspan.uncons
    obtain ⟨c₂, hspan₂, hspan⟩ := hspan.uncons
    obtain ⟨c₃, hspan₃, hspan⟩ := hspan.uncons
    obtain ⟨c₄, hspan₄, hspan⟩ := hspan.uncons
    obtain ⟨c₅, hspan₅, hspan⟩ := hspan.uncons
    obtain ⟨c₆, hspan₆, hspan₇⟩ := hspan.split
    have hend := hspan₇.endsExpression hstop (by decide) (by decide)
    have hnts : NonnegPrecedence ts := hn.mono fun u hu => by simp [hu]
    have hs : c₄.sees .semicolon = false := by
      rw [hspan₅.sees_eq, Token.isSymbol_eq_false hequal (by decide)]
    have hlast : Reads (do statementEnd; return Node.assign ⟨m, type, name⟩ value) c₆
        (.assign ⟨m, type, name⟩ value) c' := by
      rw [(reads_statementEnd.2 ⟨_, hstop, hspan₇⟩).bind_iff, reads_pure]
      exact ⟨rfl, rfl⟩
    rw [(reads_mutability.2 ⟨_, hk, hspan₁⟩).bind_iff,
      (reads_identifier.2 ⟨_, hx, hspan₂⟩).bind_iff, (reads_mark.2 ⟨_, hcolon, hspan₃⟩).bind_iff,
      (reads_typeName.2 ⟨_, ht, hspan₄⟩).bind_iff,
      (reads_take?_false.2 ⟨hs, rfl⟩).bind_iff, if_neg (by simp),
      (reads_mark.2 ⟨_, hequal, hspan₅⟩).bind_iff, reads_isAt_bind]
    cases hvalue with
    | expression he =>
      obtain ⟨t, us, rfl, ht⟩ := exists_cons_of_expression he
      have hdot : c₅.sees .period = false := by
        rw [hspan₆.sees_eq, startsOperand_isSymbol ht (by decide) (by decide)]
      rw [if_neg (by simp [hdot]),
        (reads_expression he hnts hspan₆ hend).bind_iff]
      exact hlast
    | construction hb hdot hx has =>
      rw [if_pos (by rw [hspan₆.sees_eq, hdot]),
        (reads_construction hb hdot hx has (hnts.mono fun u hu => by simp [hu]) hspan₆
          hend.2).bind_iff]
      exact hlast

theorem reads_enumCase {enum : String} {d : EnumCase} {k : Token} (hk : Is k .caseWord) :
    Reads (enumCase enum) c d c' ↔ ∃ ts, CaseRule enum (k :: ts) d ∧ Spans c ts c' := by
  unfold enumCase
  constructor
  · intro h
    obtain ⟨name, c₁, hx, h⟩ := reads_bind.1 h
    obtain ⟨vs, c₂, hvs, h⟩ := reads_bind.1 h
    obtain ⟨u, c₃, hstop, h⟩ := reads_bind.1 h
    obtain ⟨rfl, rfl⟩ := reads_pure.1 h
    obtain ⟨x, hx, hspan₁⟩ := reads_identifier.1 hx
    obtain ⟨ts, hts, hspan₂, -⟩ := reads_optionalFormals.1 hvs
    obtain ⟨stop, hstop, hspan₃⟩ := reads_statementEnd.1 hstop
    exact ⟨x :: ts ++ [stop], .intro hk hx hts hstop, hspan₁.trans (hspan₂.trans hspan₃)⟩
  · rintro ⟨ts, h, hspan⟩
    cases h with
    | @intro _ x name ts values stop _ hx hts hstop =>
      obtain ⟨c₁, hspan₁, hspan⟩ := hspan.uncons
      obtain ⟨c₂, hspan₂, hspan₃⟩ := hspan.split
      have hend := (hspan₃.endsExpression hstop (by decide) (by decide)).2
      rw [(reads_identifier.2 ⟨_, hx, hspan₁⟩).bind_iff,
        (reads_optionalFormals.2 ⟨_, hts, hspan₂, fun _ => hend⟩).bind_iff,
        (reads_statementEnd.2 ⟨_, hstop, hspan₃⟩).bind_iff, reads_pure]
      exact ⟨rfl, rfl⟩

/-- One step through the cases of an enum: the closing brace, or a case. -/
theorem reads_enumCases {enum : String} {ds : List EnumCase} :
    Reads (enumCases enum (n + 1)) c ds c' ↔
      if c.sees .rightBrace = true then [] = ds ∧ c.next = c'
      else ∃ ts d c₁ ds', CaseRule enum ts d ∧ Spans c ts c₁ ∧
        Reads (enumCases enum n) c₁ ds' c' ∧ d :: ds' = ds := by
  rw [enumCases, reads_bind]
  constructor
  · rintro ⟨b, c₁, hb, h⟩
    cases b with
    | true =>
      obtain ⟨r, hr, hspan⟩ := reads_take?_true.1 hb
      obtain ⟨rfl, rfl⟩ := reads_pure.1 h
      rw [if_pos (by rw [hspan.sees_eq, hr])]
      exact ⟨rfl, (spans_singleton.1 hspan).2.symm⟩
    | false =>
      obtain ⟨hs, rfl⟩ := reads_take?_false.1 hb
      obtain ⟨u, c₁, hk, h⟩ := reads_bind.1 h
      obtain ⟨d, c₂, hd, h⟩ := reads_bind.1 h
      obtain ⟨ds', c₃, hds, h⟩ := reads_bind.1 h
      obtain ⟨rfl, rfl⟩ := reads_pure.1 h
      obtain ⟨k, hk, hspan₁⟩ := reads_expect.1 hk
      obtain ⟨ts, hts, hspan₂⟩ := (reads_enumCase hk).1 hd
      rw [if_neg (by simp [hs])]
      exact ⟨k :: ts, d, c₂, ds', hts, hspan₁.trans hspan₂, hds, rfl⟩
  · intro h
    split at h
    · next hs =>
      obtain ⟨r, hr, hspan⟩ := Cursor.exists_of_sees hs
      obtain ⟨rfl, rfl⟩ := h
      exact ⟨true, c.next, reads_take?_true.2 ⟨r, hr, hspan⟩, reads_pure.2 ⟨rfl, rfl⟩⟩
    · next hs =>
      obtain ⟨ts, d, c₁, ds', hd, hspan, hds, rfl⟩ := h
      refine ⟨false, c, reads_take?_false.2 ⟨by simpa using hs, rfl⟩, ?_⟩
      have ⟨k, us, hk, hts⟩ : ∃ k us, Is k .caseWord ∧ ts = k :: us := by
        cases hd with | intro hk => exact ⟨_, _, hk, rfl⟩
      subst hts
      obtain ⟨c₂, hspan₁, hspan₂⟩ := hspan.uncons
      rw [if_neg (by simp), (reads_expect.2 ⟨k, hk, hspan₁⟩).bind_iff,
        ((reads_enumCase hk).2 ⟨us, hd, hspan₂⟩).bind_iff, hds.bind_iff, reads_pure]
      exact ⟨rfl, rfl⟩

theorem enumCases_of_reads {enum : String} {ds : List EnumCase}
    (h : Reads (enumCases enum n) c ds c') :
    ∃ ts r, Repeated (CaseRule enum) ts ds ∧ Is r .rightBrace ∧ Spans c (ts ++ [r]) c' := by
  induction n generalizing c ds with
  | zero => exact absurd h not_reads_fail
  | succ n ih =>
    have h := reads_enumCases.1 h
    split at h
    · next hs =>
      obtain ⟨r, hr, hspan⟩ := Cursor.exists_of_sees hs
      obtain ⟨rfl, rfl⟩ := h
      exact ⟨[], r, .nil, hr, hspan⟩
    · obtain ⟨ts, d, c₁, ds', hd, hspan, hds, rfl⟩ := h
      obtain ⟨us, r, hus, hr, hspan₁⟩ := ih hds
      refine ⟨ts ++ us, r, .cons hd hus, hr, ?_⟩
      simpa using hspan.trans hspan₁

theorem reads_enumCases_of_repeated {enum : String} {ts : List Token} {r : Token}
    {ds : List EnumCase} (h : Repeated (CaseRule enum) ts ds) (hr : Is r .rightBrace)
    (hspan : Spans c (ts ++ [r]) c') (hfuel : ts.length < n) :
    Reads (enumCases enum n) c ds c' := by
  induction h generalizing c n with
  | nil =>
    cases n with
    | zero => omega
    | succ n =>
      refine reads_enumCases.2 ?_
      rw [if_pos (by rw [hspan.sees_eq, hr])]
      exact ⟨rfl, (spans_singleton.1 hspan).2.symm⟩
  | @cons ts d us ds hd _ ih =>
    cases n with
    | zero => omega
    | succ n =>
      rw [List.append_assoc] at hspan
      obtain ⟨c₁, hspan₁, hspan₂⟩ := hspan.split
      have ⟨k, vs, hk, hts⟩ : ∃ k vs, Is k .caseWord ∧ ts = k :: vs := by
        cases hd with | intro hk => exact ⟨_, _, hk, rfl⟩
      subst hts
      simp only [List.length_append, List.length_cons] at hfuel
      refine reads_enumCases.2 ?_
      rw [if_neg (by simp [hspan₁.sees_eq, Token.isSymbol_eq_false hk])]
      exact ⟨k :: vs, d, c₁, ds, hd, hspan₁, ih hspan₂ (by omega), rfl⟩

theorem reads_enumDefinition {e : Node} :
    Reads enumDefinition c e c' ↔
      ∃ ts d, EnumRule ts d ∧ Spans c ts c' ∧ .enumeration d = e := by
  unfold enumDefinition
  constructor
  · intro h
    obtain ⟨u, c₁, hk, h⟩ := reads_bind.1 h
    obtain ⟨name, c₂, hx, h⟩ := reads_bind.1 h
    obtain ⟨u, c₃, hl, h⟩ := reads_bind.1 h
    obtain ⟨ds, c₄, hds, h⟩ := reads_bind.1 h
    obtain ⟨rfl, rfl⟩ := reads_pure.1 h
    obtain ⟨k, hk, hspan₁⟩ := reads_expect.1 hk
    obtain ⟨x, hx, hspan₂⟩ := reads_identifier.1 hx
    obtain ⟨l, hl, hspan₃⟩ := reads_mark.1 hl
    obtain ⟨ts, r, hts, hr, hspan₄⟩ := enumCases_of_reads (reads_fueled.1 hds)
    exact ⟨k :: x :: (l :: ts ++ [r]), ⟨name, ds⟩, ⟨hk, hx, .intro hl hts hr⟩,
      hspan₁.trans (hspan₂.trans (hspan₃.trans hspan₄)), rfl⟩
  · rintro ⟨ts, d, h, hspan, rfl⟩
    obtain ⟨hk, hx, hds⟩ := h
    obtain ⟨hl, hds, hr⟩ := hds
    obtain ⟨c₁, hspan₁, hspan⟩ := hspan.uncons
    obtain ⟨c₂, hspan₂, hspan⟩ := hspan.uncons
    obtain ⟨c₃, hspan₃, hspan₄⟩ := hspan.uncons
    have hlen := hspan₄.length_le
    rw [(reads_expect.2 ⟨_, hk, hspan₁⟩).bind_iff, (reads_identifier.2 ⟨_, hx, hspan₂⟩).bind_iff,
      (reads_mark.2 ⟨_, hl, hspan₃⟩).bind_iff]
    refine reads_bind.2 ⟨_, c', reads_fueled.2 (reads_enumCases_of_repeated hds hr hspan₄ ?_),
      reads_pure.2 ⟨rfl, rfl⟩⟩
    simp only [List.append_eq, List.length_append, List.length_singleton] at hlen
    unfold Cursor.fuel
    omega

end SumLang.Parser
