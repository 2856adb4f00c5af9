import SumLang.Grammar
import SumLang.Proofs.StatementRules

/-! Programs are recognized exactly: the tokens that can be read as a program are those that the
grammar derives, with the tree that the derivation denotes. -/
namespace SumLang

open Cursor (Spans)
open Grammar

namespace Parser

variable {c c' : Cursor} {n : Nat}

/-- One step through a program: its end, or a statement. -/
theorem reads_programWith {nodes : List Node} :
    Reads (programWith (n + 1)) c nodes c' ↔
      if c.rest = [] then [] = nodes ∧ c = c'
      else ∃ e c₁ nodes', Reads statement c e c₁ ∧ Reads (programWith n) c₁ nodes' c' ∧
        e :: nodes' = nodes := by
  rw [programWith, reads_peek_bind]
  by_cases hc : c.rest = []
  · simp [hc]
  · rw [if_neg (by simpa using hc), if_neg hc]
    constructor
    · intro h
      obtain ⟨e, c₁, he, h⟩ := reads_bind.1 h
      obtain ⟨nodes', c₂, hnodes, h⟩ := reads_bind.1 h
      obtain ⟨rfl, rfl⟩ := reads_pure.1 h
      exact ⟨e, c₁, nodes', he, hnodes, rfl⟩
    · rintro ⟨e, c₁, nodes', he, hnodes, rfl⟩
      rw [he.bind_iff, hnodes.bind_iff, reads_pure]
      exact ⟨rfl, rfl⟩

theorem program_of_reads {nodes : List Node} (h : Reads (programWith n) c nodes c')
    (hfuel : c.rest.length ≤ n) : Program c.rest nodes := by
  induction n generalizing c nodes with
  | zero =>
    obtain ⟨rfl, rfl⟩ := reads_pure.1 h
    have hc : c.rest = [] := by simpa using hfuel
    rw [hc]
    exact .nil
  | succ n ih =>
    have h := reads_programWith.1 h
    split at h
    · next hc =>
      obtain ⟨rfl, rfl⟩ := h
      rw [hc]
      exact .nil
    · obtain ⟨e, c₁, nodes', he, hnodes, rfl⟩ := h
      obtain ⟨ts, hts, hspan⟩ := statement_of_reads he
      obtain ⟨t, us, rfl, -⟩ := exists_cons_of_statement hts
      have hlen := congrArg List.length hspan.rest
      simp only [List.length_append, List.length_cons] at hlen
      rw [hspan.rest]
      exact .cons hts (ih hnodes (by omega))

theorem reads_program {nodes : List Node} (h : Program c.rest nodes) (hn : NonnegPrecedence c.rest)
    (hfuel : c.rest.length ≤ n) : ∃ c', Reads (programWith n) c nodes c' := by
  generalize hts : c.rest = ts at h
  induction h generalizing c n with
  | nil =>
    refine ⟨c, ?_⟩
    cases n with
    | zero => exact reads_pure.2 ⟨rfl, rfl⟩
    | succ n => exact reads_programWith.2 (by simp [hts])
  | @cons ts e us nodes he _ ih =>
    obtain ⟨t, ts, rfl, -⟩ := exists_cons_of_statement he
    have hspan : Spans c (t :: ts) ⟨c.index + (t :: ts).length, us⟩ := ⟨hts, rfl⟩
    rw [hts] at hn hfuel
    simp only [List.cons_append, List.length_cons, List.length_append] at hfuel
    cases n with
    | zero => omega
    | succ n =>
      obtain ⟨c', hrest⟩ := ih (c := ⟨c.index + (t :: ts).length, us⟩) (n := n)
        (hn.mono (by simp)) (by simp only; omega) rfl
      refine ⟨c', reads_programWith.2 ?_⟩
      rw [if_neg (by simp [hts])]
      exact ⟨e, _, nodes, reads_statement he (hn.mono (by simp)) hspan, hrest, rfl⟩

end Parser

theorem parse_eq_ok {ts : List Token} {nodes : List Node} :
    parse ts = .ok nodes ↔ ∃ c', Parser.Reads Parser.program (Cursor.start ts) nodes c' := by
  unfold parse Parser.Reads EStateM.run
  split <;> simp_all

theorem length_le_fuel (ts : List Token) :
    (Cursor.start ts).rest.length ≤ (Cursor.start ts).fuel := by
  unfold Cursor.fuel
  omega

theorem program_of_parse {ts : List Token} {nodes : List Node} (h : parse ts = .ok nodes) :
    Program ts nodes := by
  obtain ⟨c', hr⟩ := parse_eq_ok.1 h
  exact Parser.program_of_reads (Parser.reads_fueled.1 hr) (length_le_fuel ts)

theorem parse_of_program {ts : List Token} {nodes : List Node} (h : Program ts nodes)
    (hn : Parser.NonnegPrecedence ts) : parse ts = .ok nodes := by
  obtain ⟨c', hr⟩ := Parser.reads_program (c := Cursor.start ts) h hn (length_le_fuel ts)
  exact parse_eq_ok.2 ⟨c', Parser.reads_fueled.2 hr⟩

/-- Reading succeeds on exactly the tokens that the grammar derives, and gives the tree that the
derivation denotes. -/
theorem parse_eq_ok_iff_program (ts : List Token)
    (hn : ∀ t ∈ ts, t.isOperator = true → 0 ≤ t.precedence) (nodes : List Node) :
    parse ts = .ok nodes ↔ Program ts nodes :=
  ⟨program_of_parse, fun h => parse_of_program h hn⟩

/-- The tokens of `let s: Shape = .circle(2 + r * x);`, where the second operator binds tighter. -/
theorem program_let_circle :
    Program
      [⟨.symbol .letWord "let", "let", 0, -1⟩, ⟨.symbol .identifier "s", "s", 4, -1⟩,
        ⟨.symbol .colon ":", ":", 5, -1⟩, ⟨.symbol .identifier "Shape", "Shape", 7, -1⟩,
        ⟨.symbol .equal "=", "=", 13, -1⟩, ⟨.symbol .period ".", ".", 15, -1⟩,
        ⟨.symbol .identifier "circle", "circle", 16, -1⟩, ⟨.symbol .leftParen "(", "(", 22, -1⟩,
        ⟨.integer 2, "2", 23, -1⟩, ⟨.symbol .operator "+", "+", 25, 20⟩,
        ⟨.symbol .identifier "r", "r", 27, -1⟩, ⟨.symbol .operator "*", "*", 29, 40⟩,
        ⟨.symbol .identifier "x", "x", 31, -1⟩, ⟨.symbol .rightParen ")", ")", 32, -1⟩,
        ⟨.symbol .semicolon ";", ";", 33, -1⟩]
      [.assign ⟨.immutable, "Shape", "s"⟩
        (.construct "Shape" "circle"
          [.binary (.integer 2) "+" (.binary (.name "r") "*" (.name "x"))])] :=
  (parse_eq_ok_iff_program _ (by decide) _).1 rfl

end SumLang
