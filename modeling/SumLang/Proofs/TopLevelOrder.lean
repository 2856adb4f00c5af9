import Mathlib.Data.List.Perm.Basic
import SumLang.Lowering
import SumLang.Node.Equality

/-! The order of the top level. Where statements are collected into `main`, only the order among
enums, among functions and among statements counts; and where there are no statements, it does not
matter whether they would be collected. -/
namespace SumLang

/-- What becomes of a node at the top level: an enum is declared, a function is defined, and all
else is carried out. -/
inductive Kind where
  | enumeration
  | function
  | statement
deriving DecidableEq, Repr

def Node.kind : Node → Kind
  | .enumeration _ => .enumeration
  | .function _ _ => .function
  | _ => .statement

/-- The same nodes in an order that differs between nodes of different kinds only. -/
structure Reordered (nodes nodes' : List Node) : Prop where
  perm : nodes.Perm nodes'
  kinds : ∀ k, nodes.filter (·.kind = k) = nodes'.filter (·.kind = k)

namespace Lowering

/-! What a program is read as depends on the nodes of one kind at a time. -/

theorem enumerations_eq (nodes : List Node) :
    Node.enumerations nodes = Node.enumerations (nodes.filter (·.kind = .enumeration)) := by
  unfold Node.enumerations
  rw [List.filterMap_filter]
  refine List.filterMap_congr fun n _ => ?_
  cases n <;> rfl

theorem prototypes_eq (nodes : List Node) :
    prototypes nodes = prototypes (nodes.filter (·.kind = .function)) := by
  unfold prototypes
  rw [List.filterMap_filter]
  refine List.filterMap_congr fun n _ => ?_
  cases n <;> rfl

theorem functions_eq (nodes : List Node) :
    functions nodes = nodes.filter (·.kind = .function) := by
  refine List.filter_congr fun n _ => ?_
  cases n <;> rfl

theorem statements_eq (nodes : List Node) :
    statements nodes = nodes.filter (·.kind = .statement) := by
  refine List.filter_congr fun n _ => ?_
  cases n <;> rfl

theorem program_of_reordered {s : Settings} {nodes nodes' : List Node} (hs : s.entryPoint = true)
    (h : Reordered nodes nodes') : program s nodes = program s nodes' := by
  have henums : Registry.ofProgram nodes = Registry.ofProgram nodes' := by
    unfold Registry.ofProgram
    rw [enumerations_eq nodes, enumerations_eq nodes', h.kinds]
  have hprototypes : prototypes nodes = prototypes nodes' := by
    rw [prototypes_eq nodes, prototypes_eq nodes', h.kinds]
  have hfunctions : functions nodes = functions nodes' := by
    rw [functions_eq, functions_eq, h.kinds]
  have hstatements : statements nodes = statements nodes' := by
    rw [statements_eq, statements_eq, h.kinds]
  have hread : readProgram nodes = readProgram nodes' := by
    unfold readProgram
    rw [henums, hprototypes]
  have hcheck : checkEntryPoint s nodes = checkEntryPoint s nodes' := by
    unfold checkEntryPoint
    rw [hstatements, hprototypes]
  have hforward : writeForward s nodes = writeForward s nodes' := by
    unfold writeForward
    rw [hprototypes]
  have hbody : writeBody s nodes = writeBody s nodes' := by
    unfold writeBody
    rw [if_pos hs, if_pos hs, hfunctions, hstatements]
  unfold program
  rw [hread, hcheck, hforward, hbody]

/-! The code of a node does not depend on where the statements of the top level go. -/

mutual

theorem lower_entryPoint (s : Settings) (b : Bool) :
    ∀ n : Node, lower { s with entryPoint := b } n = lower s n
  | .integer _ | .float _ | .string _ | .boolean _ | .name _ | .enumeration _ | .program _
  | .typeName _ | .enumCase _ => by
    rw [lower, lower]
  | .prototype _ | .declare _ => by
    rw [lower, lower]
    rfl
  | .call f args => by
    rw [lower, lower, lowerValues_entryPoint s b args]
  | .binary x op y => by
    rw [lower, lower, lower_entryPoint s b x, lower_entryPoint s b y]
  | .construct enum case args => by
    rw [lower, lower, lowerValues_entryPoint s b args]
  | .function p body => by
    rw [lower, lower, lowerAll_entryPoint s b body]
    rfl
  | .assign v value => by
    rw [lower, lower, lower_entryPoint s b value]
    rfl
  | .yield value => by
    rw [lower, lower, lower_entryPoint s b value]
  | .print values => by
    rw [lower, lower, lowerPrints_entryPoint s b values]
  | .branch condition body => by
    rw [lower, lower, lower_entryPoint s b condition, lowerAll_entryPoint s b body]
  | .caseTest v case bindings body => by
    have hbindings (c : CaseLayout) (bs : List (Variable × Variable)) :
        writeBindings { s with entryPoint := b } c v.name bs = writeBindings s c v.name bs := by
      induction bs with
      | nil => rfl
      | cons p bs ih =>
        rw [writeBindings, writeBindings, ih]
        rfl
    rw [lower, lower, lowerAll_entryPoint s b body]
    simp only [hbindings]
    rfl

theorem lowerAll_entryPoint (s : Settings) (b : Bool) :
    ∀ ns : List Node, lowerAll { s with entryPoint := b } ns = lowerAll s ns
  | [] => by
    rw [lowerAll, lowerAll]
  | n :: ns => by
    rw [lowerAll, lowerAll, lower_entryPoint s b n, lowerAll_entryPoint s b ns]

theorem lowerValues_entryPoint (s : Settings) (b : Bool) :
    ∀ ns : List Node, lowerValues { s with entryPoint := b } ns = lowerValues s ns
  | [] => by
    rw [lowerValues, lowerValues]
  | n :: ns => by
    rw [lowerValues, lowerValues, lower_entryPoint s b n, lowerValues_entryPoint s b ns]

theorem lowerPrints_entryPoint (s : Settings) (b : Bool) :
    ∀ ns : List Node, lowerPrints { s with entryPoint := b } ns = lowerPrints s ns
  | [] => by
    rw [lowerPrints, lowerPrints]
  | n :: ns => by
    rw [lowerPrints, lowerPrints, lower_entryPoint s b n, lowerPrints_entryPoint s b ns]
    rfl

end

theorem topLevel_entryPoint (s : Settings) (b : Bool) (n : Node) :
    topLevel { s with entryPoint := b } n = topLevel s n := by
  have hstatement : statement { s with entryPoint := b } n = statement s n := by
    rw [statement, statement, lower_entryPoint]
  unfold topLevel
  rw [hstatement]

/-- Enums are passed over where the nodes are lowered in order. -/
theorem forM_topLevel_eq {s : Settings} {nodes : List Node}
    (h : ∀ n ∈ nodes, n.kind ≠ .statement) :
    nodes.forM (topLevel s) = (functions nodes).forM (topLevel s) := by
  rw [functions_eq]
  induction nodes with
  | nil => rfl
  | cons n nodes ih =>
    obtain ⟨hn, hnodes⟩ := List.forall_mem_cons.1 h
    cases n with
    | enumeration d => exact ih hnodes
    | function p body =>
      change (topLevel s _ >>= fun _ => nodes.forM (topLevel s)) = _
      rw [ih hnodes]
      rfl
    | _ => exact absurd rfl hn

theorem program_entryPoint (s : Settings) {nodes : List Node}
    (h : ∀ n ∈ nodes, n.kind ≠ .statement) :
    program { s with entryPoint := false } nodes = program { s with entryPoint := true } nodes := by
  have hstatements : statements nodes = [] := by
    rw [statements_eq, List.filter_eq_nil_iff]
    intro n hn
    simpa using h n hn
  have hcheck : checkEntryPoint { s with entryPoint := false } nodes =
      checkEntryPoint { s with entryPoint := true } nodes := by
    unfold checkEntryPoint
    rw [hstatements]
    rfl
  have hbody : writeBody { s with entryPoint := false } nodes =
      writeBody { s with entryPoint := true } nodes := by
    have htop (b : Bool) : topLevel { s with entryPoint := b } = topLevel s :=
      funext (topLevel_entryPoint s b)
    unfold writeBody
    rw [hstatements, htop false, htop true, forM_topLevel_eq h]
    exact (bind_pure_unit).symm
  unfold program
  rw [hcheck, hbody]
  rfl

end Lowering

/-- With statements collected into `main`, a program is lowered to the same text, or refused for the
same reason, in every order that keeps the order among enums, among functions and among statements.
Without statements, it makes no difference whether they would be collected. -/
theorem generate_topLevelOrder (s : Settings) :
    (s.entryPoint = true → ∀ nodes nodes', Reordered nodes nodes' →
      generate s nodes = generate s nodes') ∧
    ∀ nodes : List Node, (∀ n ∈ nodes, n.kind ≠ .statement) →
      generate { s with entryPoint := false } nodes =
        generate { s with entryPoint := true } nodes := by
  constructor
  · intro hs nodes nodes' h
    unfold generate lowerToLines
    rw [Lowering.program_of_reordered hs h]
  · intro nodes h
    unfold generate lowerToLines
    rw [Lowering.program_entryPoint s h]

/-- A call before the function that it calls, and an enum between two statements; and a program that
has its own `main`. -/
theorem generate_topLevelOrder_call :
    generate {} [.print [.call "f" []], .enumeration ⟨"E", [⟨"E", "a", []⟩]⟩,
        .assign ⟨.immutable, "E", "x"⟩ (.construct "E" "a" []),
        .function ⟨"f", [], "Int"⟩ [.yield (.integer 1)]] =
      generate {} [.function ⟨"f", [], "Int"⟩ [.yield (.integer 1)], .print [.call "f" []],
        .assign ⟨.immutable, "E", "x"⟩ (.construct "E" "a" []),
        .enumeration ⟨"E", [⟨"E", "a", []⟩]⟩] ∧
    generate { entryPoint := false } [.function ⟨"main", [], "Int"⟩ [.yield (.integer 0)],
        .enumeration ⟨"E", [⟨"E", "a", []⟩]⟩] =
      generate {} [.function ⟨"main", [], "Int"⟩ [.yield (.integer 0)],
        .enumeration ⟨"E", [⟨"E", "a", []⟩]⟩] := by
  obtain ⟨hreordered, hnone⟩ := generate_topLevelOrder {}
  constructor
  · refine hreordered rfl _ _ ⟨by decide, fun k => ?_⟩
    cases k <;> rfl
  · exact hnone _ (by simp [Node.kind])

end SumLang
