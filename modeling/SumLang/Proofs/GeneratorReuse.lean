import SumLang.Proofs.StatementLayout

/-! A generator can be used again: what an earlier program left behind, also one that was refused in
the middle of a body, does not show. Within a program, what a statement declares is gone with the
body that it stands in. -/
namespace SumLang

/-- The steps from one memory to another left every body they entered and declared names in the
innermost scope only. -/
structure Memory.Keeps (m m' : Memory) : Prop where
  level : m'.level = m.level
  depth : m'.depth = m.depth
  scopes : ∀ inner outer, m.scopes = inner :: outer → ∃ inner', m'.scopes = inner' :: outer

namespace Memory.Keeps

variable {m m₁ m₂ : Memory}

theorem refl (m : Memory) : m.Keeps m := ⟨rfl, rfl, fun inner _ h => ⟨inner, h⟩⟩

theorem trans (h : m.Keeps m₁) (h' : m₁.Keeps m₂) : m.Keeps m₂ where
  level := h'.level.trans h.level
  depth := h'.depth.trans h.depth
  scopes inner outer hscopes := by
    obtain ⟨inner₁, hscopes₁⟩ := h.scopes inner outer hscopes
    exact h'.scopes inner₁ outer hscopes₁

theorem write (m : Memory) (code : Code) : m.Keeps (m.write code) :=
  ⟨rfl, rfl, fun inner _ h => ⟨inner, h⟩⟩

theorem declare (m : Memory) (v : Variable) : m.Keeps (m.declare v) := by
  unfold Memory.declare
  cases hm : m.scopes with
  | nil => exact ⟨rfl, rfl, fun inner outer h => by simp [hm] at h⟩
  | cons scope outer =>
    refine ⟨rfl, rfl, fun inner outer' h => ?_⟩
    rw [hm] at h
    obtain ⟨-, rfl⟩ := List.cons.inj h
    exact ⟨_, rfl⟩

/-- Leaving a body gives back what there was before it. -/
theorem leave (h : m.enter.Keeps m₁) : m.Keeps m₁.leave := by
  obtain ⟨inner, hscopes⟩ := h.scopes [] m.scopes rfl
  have hlevel : m₁.level = m.level + 1 := h.level
  have hdepth : m₁.depth = m.depth + 1 := h.depth
  refine ⟨?_, ?_, ?_⟩
  · simp only [Memory.leave]
    omega
  · simp only [Memory.leave]
    omega
  · intro inner' outer hm
    refine ⟨inner', ?_⟩
    rw [Memory.leave, hscopes]
    exact hm

end Memory.Keeps

namespace Lowering

variable {α β : Type} {s : Settings}

/-- A step that keeps to the innermost scope. -/
def Framed (x : Lowering α) : Prop := ∀ m a m', x m = .ok a m' → m.Keeps m'

/-- A step that starts inside a body and leaves it. -/
def Closing (x : Lowering α) : Prop :=
  ∀ (m m₁ : Memory) a m', m.enter.Keeps m₁ → x m₁ = .ok a m' → m.Keeps m'

namespace Framed

theorem pure (a : α) : Framed (Pure.pure a : Lowering α) := by
  intro m b m' h
  obtain ⟨-, rfl⟩ := pure_eq_ok.1 h
  exact .refl m

theorem throw (f : LoweringFault) : Framed (throw f : Lowering α) := by
  intro m a m' h
  cases h

theorem bind {x : Lowering α} {f : α → Lowering β} (hx : Framed x) (hf : ∀ a, Framed (f a)) :
    Framed (x >>= f) := by
  intro m b m' h
  obtain ⟨a, m₁, hrun, hrest⟩ := bind_eq_ok.1 h
  exact (hx m a m₁ hrun).trans (hf a m₁ b m' hrest)

theorem modify {f : Memory → Memory} (hf : ∀ m : Memory, m.Keeps (f m)) :
    Framed (modify f : Lowering Unit) := by
  intro m a m' h
  cases h
  exact hf m

theorem get : Framed (get : Lowering Memory) := by
  intro m a m' h
  cases h
  exact .refl m

theorem forM {as : List α} {f : α → Lowering Unit} (hf : ∀ a, Framed (f a)) :
    Framed (as.forM f) := by
  induction as with
  | nil => exact .pure ()
  | cons a as ih => exact (hf a).bind fun _ => ih

theorem write (code : Code) : Framed (Lowering.write code) := modify fun m => .write m code

theorem writeStatement (st : Code.Statement) : Framed (Lowering.writeStatement st) := write _

theorem declare (v : Variable) : Framed (Lowering.declare v) := modify fun m => .declare m v

theorem enter_bind {f : Unit → Lowering α} (hf : Closing (f ())) :
    Framed (Lowering.enter >>= f) := by
  intro m a m' h
  exact hf m m.enter a m' (.refl _) h

end Framed

namespace Closing

theorem bind {x : Lowering α} {f : α → Lowering β} (hx : Framed x) (hf : ∀ a, Closing (f a)) :
    Closing (x >>= f) := by
  intro m m₁ b m' hm h
  obtain ⟨a, m₂, hrun, hrest⟩ := bind_eq_ok.1 h
  exact hf a m m₂ b m' (hm.trans (hx m₁ a m₂ hrun)) hrest

theorem leave_bind {f : Unit → Lowering α} (hf : Framed (f ())) :
    Closing (Lowering.leave >>= f) := by
  intro m m₁ a m' hm h
  exact hm.leave.trans (hf m₁.leave a m' h)

end Closing

theorem framed_integerText (n : Int) : Framed (integerText n) := by
  unfold integerText
  split
  · exact .throw _
  · exact .pure _

theorem framed_joinValues (values : List (Option String)) : Framed (joinValues values) := by
  unfold joinValues
  split
  · exact .pure _
  · exact .throw _

theorem framed_precedenceOf (operator : String) : Framed (precedenceOf operator) := by
  unfold precedenceOf
  split
  · exact .pure _
  · exact .throw _

theorem framed_ofEnums (x : Registry → Except EnumFault α) : Framed (ofEnums x) := by
  refine Framed.get.bind fun m => ?_
  split
  · exact .pure _
  · exact .throw _

theorem framed_constructorOf (enum case : String) : Framed (constructorOf enum case) := by
  refine Framed.get.bind fun m => ?_
  split
  · exact (framed_ofEnums _).bind fun c => .pure _
  · exact .pure _

theorem framed_writePrint (value : Node) (text : String) : Framed (writePrint s value text) := by
  unfold writePrint
  split
  · exact .writeStatement _
  · exact Framed.get.bind fun m => .writeStatement _

theorem framed_finishStatement (n : Node) (value : Option String) :
    Framed (finishStatement n value) := by
  unfold finishStatement
  split
  · exact .writeStatement _
  · exact .pure _

theorem framed_checkTopLevel (name : String) : Framed (checkTopLevel name) := by
  refine Framed.get.bind fun m => ?_
  split
  · exact .throw _
  · exact .pure _

theorem framed_testedCase (enum case : String) (bound : Nat) :
    Framed (testedCase s enum case bound) := by
  intro m c m' h
  rw [(testedCase_eq_ok h).1]
  exact .refl m

theorem framed_writeBindings (c : CaseLayout) (owner : String) (bs : List (Variable × Variable)) :
    Framed (writeBindings s c owner bs) := by
  induction bs with
  | nil => exact .pure ()
  | cons b bs ih =>
    exact (Framed.declare b.1).bind fun _ => (Framed.writeStatement _).bind fun _ => ih

/-- The end of a body. -/
theorem closing_body {x : Lowering Unit} (hx : Framed x) (a : α) : Closing (do
    x
    leave
    write (.leave none)
    return a) :=
  .bind hx fun _ => .leave_bind ((Framed.write _).bind fun _ => .pure a)

mutual

theorem framed_lower (s : Settings) : ∀ n : Node, Framed (lower s n)
  | .integer n => by
    rw [lower]
    exact (framed_integerText n).bind fun _ => .pure _
  | .float _ | .string _ | .boolean _ | .name _ => by
    rw [lower]
    exact .pure _
  | .call f args => by
    rw [lower]
    exact (framed_lowerValues s args).bind fun _ => (framed_joinValues _).bind fun _ => .pure _
  | .binary a op b => by
    rw [lower]
    exact (framed_precedenceOf op).bind fun _ => (framed_lower s a).bind fun _ =>
      (framed_lower s b).bind fun _ => .pure _
  | .construct enum case args => by
    rw [lower]
    exact (framed_lowerValues s args).bind fun _ => (framed_joinValues _).bind fun _ =>
      (framed_constructorOf enum case).bind fun _ => .pure _
  | .function p body => by
    rw [lower]
    refine (framed_checkTopLevel _).bind fun _ => (Framed.write _).bind fun _ => .enter_bind ?_
    exact .bind (.forM .declare) fun _ => closing_body (framed_lowerAll s body) none
  | .prototype p => by
    rw [lower]
    exact (Framed.writeStatement _).bind fun _ => .pure _
  | .declare v => by
    rw [lower]
    exact (Framed.declare v).bind fun _ => (Framed.writeStatement _).bind fun _ => .pure _
  | .assign v value => by
    rw [lower]
    exact (framed_lower s value).bind fun _ => (Framed.declare v).bind fun _ =>
      (Framed.writeStatement _).bind fun _ => .pure _
  | .yield value => by
    rw [lower]
    exact (framed_lower s value).bind fun _ => (Framed.writeStatement _).bind fun _ => .pure _
  | .print values => by
    rw [lower]
    exact (framed_lowerPrints s values).bind fun _ => .pure _
  | .branch condition body => by
    rw [lower]
    refine (framed_lower s condition).bind fun _ => (Framed.write _).bind fun _ => .enter_bind ?_
    exact closing_body (framed_lowerAll s body) none
  | .caseTest v case bindings body => by
    rw [lower]
    refine (framed_testedCase _ _ _).bind fun c => (Framed.write _).bind fun _ => .enter_bind ?_
    exact .bind (framed_writeBindings c _ _) fun _ => closing_body (framed_lowerAll s body) none
  | .enumeration _ | .program _ | .typeName _ | .enumCase _ => by
    rw [lower]
    exact .throw _

theorem framed_lowerAll (s : Settings) : ∀ ns : List Node, Framed (lowerAll s ns)
  | [] => by
    rw [lowerAll]
    exact .pure ()
  | n :: ns => by
    rw [lowerAll]
    exact (framed_lower s n).bind fun _ => (framed_finishStatement n _).bind fun _ =>
      framed_lowerAll s ns

theorem framed_lowerValues (s : Settings) : ∀ ns : List Node, Framed (lowerValues s ns)
  | [] => by
    rw [lowerValues]
    exact .pure _
  | n :: ns => by
    rw [lowerValues]
    exact (framed_lower s n).bind fun _ => (framed_lowerValues s ns).bind fun _ => .pure _

theorem framed_lowerPrints (s : Settings) : ∀ ns : List Node, Framed (lowerPrints s ns)
  | [] => by
    rw [lowerPrints]
    exact .pure ()
  | n :: ns => by
    rw [lowerPrints]
    exact (framed_lower s n).bind fun _ => (framed_writePrint n _).bind fun _ =>
      framed_lowerPrints s ns

end

theorem framed_statement (n : Node) : Framed (statement s n) :=
  (framed_lower s n).bind fun _ => framed_finishStatement n _

/-! The outcome of a program does not depend on the memory it starts with. -/

/-- Noting the enums and functions of a program fails, or leads to a memory that is the same
wherever it starts. -/
theorem readProgram_cases (nodes : List Node) :
    (∃ f, ∀ m, readProgram nodes m = .error f (restart m)) ∨
      ∃ start, ∀ m, readProgram nodes m = .ok () start := by
  cases hr : Registry.ofProgram nodes with
  | error f =>
    refine .inl ⟨.enum f, fun m => ?_⟩
    rw [readProgram, hr]
    rfl
  | ok enums =>
    refine .inr ⟨{
      functions := ((prototypes nodes).map fun p => (p.name, p.result)).reverse
      enums }, fun m => ?_⟩
    rw [readProgram, hr]
    rfl

theorem program_cases_memory (s : Settings) (nodes : List Node) :
    (∃ f, ∀ m, program s nodes m = .error f (restart m)) ∨
      ∃ result, ∀ m, program s nodes m = result := by
  rcases readProgram_cases nodes with ⟨f, hread⟩ | ⟨start, hread⟩
  · refine .inl ⟨f, fun m => ?_⟩
    rw [program, bind_of_error (hread m)]
  · refine .inr ⟨program s nodes {}, fun m => ?_⟩
    rw [program, bind_of_ok (hread m), bind_of_ok (hread {})]

end Lowering

namespace Generator

/-- The outcomes of programs that are lowered one after the other. -/
def outcomes (g : Generator) : List (List Node) → List (Except LoweringFault String)
  | [] => []
  | nodes :: programs => (g.next nodes).1 :: (g.next nodes).2.outcomes programs

theorem settings_next (g : Generator) (nodes : List Node) :
    (g.next nodes).2.settings = g.settings := by
  unfold next
  split <;> rfl

/-- What a generator remembers has no influence on the next outcome. -/
theorem outcome_next (g : Generator) (nodes : List Node) :
    (g.next nodes).1 = (next { settings := g.settings } nodes).1 := by
  unfold next
  rcases Lowering.program_cases_memory g.settings nodes with ⟨f, hrun⟩ | ⟨result, hrun⟩
  · rw [hrun, hrun]
  · rw [hrun, hrun]

/-- A generator lowers each of a sequence of programs as a new one with the same settings would, and
every statement on the way leaves indentation, depth and the outer scopes as they were. -/
theorem outcomes_eq_fresh (g : Generator) (programs : List (List Node)) :
    g.outcomes programs = programs.map (fun nodes => (next { settings := g.settings } nodes).1) ∧
      (∀ n m m', Lowering.statement g.settings n m = .ok () m' → m.Keeps m') ∧
      ∀ n m value m', Lowering.lower g.settings n m = .ok value m' → m.Keeps m' := by
  refine ⟨?_, fun n m m' => ?_, Lowering.framed_lower g.settings⟩
  · induction programs generalizing g with
    | nil => rfl
    | cons nodes programs ih =>
      rw [outcomes, ih, settings_next, outcome_next]
      rfl
  · exact Lowering.framed_statement n m () m'

/-- An enum inside a function is refused when the function's body is open. The `x` declared there is
not that of the next program, which is printed as a name of unknown type. -/
theorem outcomes_after_nested_enum :
    outcomes { settings := {} } [
        [.function ⟨"f", [⟨.immutable, "Float", "x"⟩], "Void"⟩ [.enumeration ⟨"E", []⟩]],
        [.print [.name "x"]]] =
      [.error (.unsupported "nested enum 'E'" (some "define enums at the top level")),
        .ok ("#include <stdio.h>\n#include <stdlib.h>\n#include <stdbool.h>\n" ++
          "#include <string.h>\n\nint main(void) \x7b\n    printf(\"%s\\n\", x);\n" ++
          "    return 0;\n\x7d\n")] ∧
      ∃ m', Lowering.statement {} (.branch (.boolean true) [.declare ⟨.mutable, "Int", "x"⟩]) {} =
        .ok () m' ∧ ({} : Memory).Keeps m' := by
  obtain ⟨houtcomes, hstatement, -⟩ := outcomes_eq_fresh { settings := {} } [
    [.function ⟨"f", [⟨.immutable, "Float", "x"⟩], "Void"⟩ [.enumeration ⟨"E", []⟩]],
    [.print [.name "x"]]]
  refine ⟨houtcomes.trans ?_, _, rfl,
    hstatement (.branch (.boolean true) [.declare ⟨.mutable, "Int", "x"⟩]) _ _ rfl⟩
  decide +kernel

end Generator

end SumLang
