import SumLang.Proofs.LoweringChecks

/-! Which programs can be lowered. A program that was read from text is refused for its enums, for a
`main` function beside statements, for a definition that is not at the top level, or for a use of an
enum that does not agree with its definition, and for nothing else. -/
namespace SumLang

def AgreesWith (s : Settings) (ds : List EnumDefinition) : Node → Prop
  | .caseTest v case bindings _ =>
    s.enumTags = true ∧ ∃ d ∈ ds, d.name = v.type ∧ ∃ c ∈ d.cases, c.name = case ∧
      bindings.length = c.values.length
  | .construct enum case _ => ∀ d ∈ ds, d.name = enum → ∃ c ∈ d.cases, c.name = case
  | _ => True

/-- Statements at the top level need a `main`, and the program defines one itself. -/
def EntryPointConflict (s : Settings) (nodes : List Node) : Prop :=
  s.entryPoint = true ∧ (∃ n ∈ nodes, n.isDefinition = false) ∧
    ∃ p body, Node.function p body ∈ nodes ∧ p.name = "main"

/-- What a program needs to be lowered. -/
structure Admissible (s : Settings) (nodes : List Node) : Prop where
  /-- The enums can be registered in order. -/
  enums : ∃ r, Registry.ofProgram nodes = .ok r
  entryPoint : ¬ EntryPointConflict s nodes
  /-- Functions and enums are defined at the top level only. -/
  topLevel : ∀ n ∈ nodes, ∀ x ∈ n.descendants, x.isDefinition = false
  uses : ∀ n ∈ nodes, ∀ x ∈ n.subtrees, AgreesWith s (Node.enumerations nodes) x

namespace Lowering

variable {s : Settings} {nodes : List Node}

section Definitions

variable {ds : List EnumDefinition}

theorem exists_lookup_iff (h : Compatible (ds.map EnumDefinition.layout)) (enum case : String)
    (P : Nat → Prop) :
    (∃ k, (Registry.ofLayouts (ds.map EnumDefinition.layout)).lookup enum case = .ok k ∧
      P k.arity) ↔
      ∃ d ∈ ds, d.name = enum ∧ ∃ c ∈ d.cases, c.name = case ∧ P c.values.length := by
  simp only [Registry.lookup_ofLayouts h]
  constructor
  · rintro ⟨k, ⟨l, hl, rfl, hk, rfl⟩, hP⟩
    obtain ⟨d, hd, rfl⟩ := List.mem_map.1 hl
    obtain ⟨c, hc, rfl⟩ := List.mem_map.1 hk
    exact ⟨d, hd, rfl, c, hc, rfl, hP⟩
  · rintro ⟨d, hd, rfl, c, hc, rfl, hP⟩
    have hmem : c.layout d.name ∈ d.layout.cases := List.mem_map_of_mem hc
    exact ⟨c.layout d.name, ⟨d.layout, List.mem_map_of_mem hd, rfl, hmem, rfl⟩, hP⟩

theorem supported_iff (h : Compatible (ds.map EnumDefinition.layout)) {x : Node} :
    Supported s (.ofLayouts (ds.map EnumDefinition.layout)) x ↔
      x.isDefinition = false ∧ AgreesWith s ds x := by
  cases x with
  | caseTest v case bindings body =>
    have hcase := exists_lookup_iff h v.type case fun arity => bindings.length = arity
    exact ⟨fun hs => ⟨rfl, hs.1, hcase.1 hs.2⟩, fun hs => ⟨hs.2.1, hcase.2 hs.2.2⟩⟩
  | construct enum case args =>
    have hcontains : (Registry.ofLayouts (ds.map EnumDefinition.layout)).contains enum = true ↔
        ∃ d ∈ ds, d.name = enum := by
      rw [Registry.contains_iff]
      simp [Registry.ofLayouts, EnumDefinition.layout]
    constructor
    · refine fun hs => ⟨rfl, fun d hd hname => ?_⟩
      obtain ⟨k, hk⟩ := hs (hcontains.2 ⟨d, hd, hname⟩)
      obtain ⟨l, hl, hlname, hmem, rfl⟩ := (Registry.lookup_ofLayouts h).1 hk
      -- The enum that was found is the one at hand, since no other has its name.
      obtain rfl : l = d.layout :=
        List.inj_on_of_nodup_map h.names hl (List.mem_map_of_mem hd) (hlname.trans hname.symm)
      obtain ⟨c, hc, rfl⟩ := List.mem_map.1 hmem
      exact ⟨c, hc, rfl⟩
    · rintro ⟨-, hs⟩ henum
      obtain ⟨d, hd, hname⟩ := hcontains.1 henum
      obtain ⟨c, hc, hcname⟩ := hs d hd hname
      obtain ⟨k, hk, -⟩ := (exists_lookup_iff h enum case fun _ => True).2
        ⟨d, hd, hname, c, hc, hcname, trivial⟩
      exact ⟨k, hk⟩
  | _ => simp [Supported, Node.isDefinition, AgreesWith]

end Definitions

section Program

variable {r : Registry}

def TopLevelSupported (s : Settings) (r : Registry) (n : Node) : Prop :=
  (n.isDefinition = false → Supported s r n) ∧ ∀ x ∈ n.descendants, Supported s r x

theorem topLevelSupported_iff {n : Node} (h : n.isDefinition = false) :
    TopLevelSupported s r n ↔ ∀ x ∈ n.subtrees, Supported s r x := by
  simp [TopLevelSupported, Node.forall_mem_subtrees, h]

theorem topLevelSupported_enumeration (d : EnumDefinition) :
    TopLevelSupported s r (.enumeration d) := by
  simp [TopLevelSupported, Node.isDefinition, Node.descendants]

theorem decides_topLevel {n : Node} (h : WellFormed.Statement n) :
    Decides r 0 0 (topLevel s n) (TopLevelSupported s r n) := by
  unfold topLevel
  split
  · exact (Decides.pure ()).congr (iff_of_true trivial (topLevelSupported_enumeration _))
  · next p body =>
    have hbody : ∀ n ∈ body, WellFormed.Statement n := by
      cases h with
      | function _ hbody => exact hbody
      | expression he => cases he
    refine ((decides_statement (decides_function hbody)).bind_then fun _ => .write .blank).congr ?_
    simp [TopLevelSupported, Node.isDefinition]
  · next henum hfunction =>
    have hdefinition : n.isDefinition = false := by
      unfold Node.isDefinition
      split
      · exact absurd rfl (hfunction _ _)
      · exact absurd rfl (henum _)
      · rfl
    exact (decides_statement (decides_lower h (.inr hfunction))).congr
      (topLevelSupported_iff hdefinition).symm

theorem mem_functions {n : Node} :
    n ∈ functions nodes ↔ n ∈ nodes ∧ ∃ p body, n = .function p body := by
  rw [functions, List.mem_filter]
  cases n <;> simp

theorem mem_statements {n : Node} :
    n ∈ statements nodes ↔ n ∈ nodes ∧ n.isDefinition = false := by
  rw [statements, List.mem_filter]
  cases n <;> simp [Node.isDefinition]

theorem decides_writeMain {body : List Node} (h : ∀ n ∈ body, WellFormed.Statement n) :
    Decides r 0 0 (writeMain s body) (∀ n ∈ body, ∀ x ∈ n.subtrees, Supported s r x) := by
  have hbody : Decides r 1 1 (lowerAll s body) _ :=
    decides_lowerAll fun n hn => decides_lower (h n hn) (.inl Nat.one_pos)
  exact .entering (hbody.bind_then fun _ => (Decides.writeStatement _).then_bind fun _ =>
    Decides.leave.then_bind fun _ => .write _)

theorem decides_writeBody (h : ∀ n ∈ nodes, WellFormed.Statement n) :
    Decides r 0 0 (writeBody s nodes) (∀ n ∈ nodes, TopLevelSupported s r n) := by
  unfold writeBody
  split
  · have hfunctions : Decides r 0 0 ((functions nodes).forM (topLevel s)) _ :=
      .forM fun n hn => decides_topLevel (h n (mem_functions.1 hn).1)
    have hstatements : Decides r 0 0
        (if !(statements nodes).isEmpty then writeMain s (statements nodes) else pure ())
        (∀ n ∈ statements nodes, ∀ x ∈ n.subtrees, Supported s r x) := by
      split
      · exact decides_writeMain fun n hn => h n (mem_statements.1 hn).1
      · next hempty => exact (Decides.pure ()).congr (by simp_all)
    refine (hfunctions.bind fun _ => hstatements).congr ⟨fun hall n hn => ?_, fun hall => ?_⟩
    · cases hdefinition : n.isDefinition with
      | false =>
        have hmem : n ∈ statements nodes := mem_statements.2 ⟨hn, hdefinition⟩
        exact (topLevelSupported_iff hdefinition).2 (hall.2 n hmem)
      | true =>
        cases n with
        | function p body => exact hall.1 _ (mem_functions.2 ⟨hn, p, body, rfl⟩)
        | enumeration d => exact topLevelSupported_enumeration d
        | _ => simp [Node.isDefinition] at hdefinition
    · refine ⟨fun n hn => hall n (mem_functions.1 hn).1, fun n hn => ?_⟩
      obtain ⟨hmem, hdefinition⟩ := mem_statements.1 hn
      exact (topLevelSupported_iff hdefinition).1 (hall n hmem)
  · exact .forM fun n hn => decides_topLevel (h n hn)

theorem mem_prototypes {p : Prototype} :
    p ∈ prototypes nodes ↔ ∃ body, Node.function p body ∈ nodes := by
  rw [prototypes, List.mem_filterMap]
  constructor
  · rintro ⟨n, hn, hp⟩
    cases n with
    | function q body =>
      obtain rfl := Option.some.inj hp
      exact ⟨body, hn⟩
    | _ => simp at hp
  · rintro ⟨body, hn⟩
    exact ⟨_, hn, rfl⟩

theorem entryPointConflict_iff :
    (s.entryPoint && !(statements nodes).isEmpty && (prototypes nodes).any (·.name == "main")) =
      true ↔ EntryPointConflict s nodes := by
  have hstatements : (!(statements nodes).isEmpty) = true ↔
      ∃ n ∈ nodes, n.isDefinition = false := by
    rw [Bool.not_eq_true', List.isEmpty_eq_false_iff_exists_mem]
    simp only [mem_statements]
  have hmain : (prototypes nodes).any (·.name == "main") = true ↔
      ∃ p body, Node.function p body ∈ nodes ∧ p.name = "main" := by
    rw [List.any_eq_true]
    simp [mem_prototypes]
  rw [Bool.and_eq_true, Bool.and_eq_true, hstatements, hmain, and_assoc]
  rfl

theorem decides_checkEntryPoint :
    Decides r 0 0 (checkEntryPoint s nodes) (¬ EntryPointConflict s nodes) := by
  unfold checkEntryPoint
  split
  · next hconflict => exact .throw (not_not_intro (entryPointConflict_iff.1 hconflict)) rfl
  · next hconflict =>
    exact (Decides.pure ()).congr (iff_of_true trivial (mt entryPointConflict_iff.2 hconflict))

theorem decides_writeHeader : Decides r 0 0 (writeHeader s) True := by
  have hlines : Decides r 0 0 ((s.dialect.includeLines ++ s.dialect.namespaceLine.toList).forM
      fun l => write (.header l)) True :=
    (Decides.forM fun _ _ => .write _).congr (by simp)
  exact hlines.then_bind fun _ => .write _

theorem decides_writeEnums : Decides r 0 0 (writeEnums s) True := by
  have hlines (ls : List Line) : Decides r 0 0 (writeLines ls) True :=
    .modify (fun _ => rfl) fun _ hd => hd
  exact .get_bind fun m _ _ => (Decides.forM fun l _ => (hlines (l.lines s)).then_bind fun _ =>
    .write .blank).congr (by simp)

theorem decides_writeForward : Decides r 0 0 (writeForward s nodes) True := by
  unfold writeForward
  split
  · have hheads : Decides r 0 0 ((prototypes nodes).forM fun p =>
        writeStatement (.prototype (s.signature p))) True :=
      (Decides.forM fun _ _ => .writeStatement _).congr (by simp)
    exact hheads.then_bind fun _ => .write _
  · exact .pure ()

theorem topLevelSupported_ofLayouts {ds : List EnumDefinition}
    (h : Compatible (ds.map EnumDefinition.layout)) {n : Node} :
    TopLevelSupported s (.ofLayouts (ds.map EnumDefinition.layout)) n ↔
      (∀ x ∈ n.descendants, x.isDefinition = false) ∧ ∀ x ∈ n.subtrees, AgreesWith s ds x := by
  have hnode : (n.isDefinition = false → n.isDefinition = false ∧ AgreesWith s ds n) ↔
      AgreesWith s ds n := by
    cases n <;> simp [Node.isDefinition, AgreesWith]
  simp only [TopLevelSupported, supported_iff h, hnode, Node.forall_mem_subtrees]
  constructor
  · rintro ⟨hn, hx⟩
    exact ⟨fun x hmem => (hx x hmem).1, hn, fun x hmem => (hx x hmem).2⟩
  · rintro ⟨hdefinition, hn, hx⟩
    exact ⟨hn, fun x hmem => ⟨hdefinition x hmem, hx x hmem⟩⟩

/-- Where the enums are registered, the rest is asked of the nodes. -/
theorem admissible_iff (hr : Registry.ofProgram nodes = .ok r) :
    Admissible s nodes ↔
      ¬ EntryPointConflict s nodes ∧ ∀ n ∈ nodes, TopLevelSupported s r n := by
  obtain ⟨rfl, hcompatible⟩ := Registry.registerAll_empty_iff.1 hr
  simp only [topLevelSupported_ofLayouts hcompatible]
  constructor
  · intro h
    exact ⟨h.entryPoint, fun n hn => ⟨h.topLevel n hn, h.uses n hn⟩⟩
  · rintro ⟨hentry, hnodes⟩
    exact ⟨⟨_, hr⟩, hentry, fun n hn => (hnodes n hn).1, fun n hn => (hnodes n hn).2⟩

/-- The lowering of a program whose enums are known. -/
theorem decides_rest (h : ∀ n ∈ nodes, WellFormed.Statement n)
    (hr : Registry.ofProgram nodes = .ok r) :
    Decides r 0 0 (do
      checkEntryPoint s nodes
      writeHeader s
      writeEnums s
      writeForward s nodes
      writeBody s nodes
      modify fun m => { m with lines := (Line.dropBlankEnd m.lines.toList).toArray }
      return (← get).lines.toList.map (Line.render s.indent)) (Admissible s nodes) := by
  have hdrop : Decides r 0 0
      (modify fun m => { m with lines := (Line.dropBlankEnd m.lines.toList).toArray }) True :=
    .modify (fun _ => rfl) fun _ hd => hd
  refine Decides.congr ?_ (admissible_iff hr).symm
  exact decides_checkEntryPoint.bind fun _ => decides_writeHeader.then_bind fun _ =>
    decides_writeEnums.then_bind fun _ => decides_writeForward.then_bind fun _ =>
    (decides_writeBody h).bind_then fun _ => hdrop.then_bind fun _ => .get_bind fun _ _ _ => .pure _

/-- A program is lowered, or a fault is reported, whatever was remembered before. -/
theorem program_cases (h : ∀ n ∈ nodes, WellFormed.Statement n) (m : Memory) :
    match program s nodes m with
    | .ok _ _ => Admissible s nodes
    | .error f _ => ¬ Admissible s nodes ∧ f.IsReported := by
  cases hr : Registry.ofProgram nodes with
  | error f =>
    have hread : readProgram nodes m = .error (.enum f) (restart m) := by
      unfold readProgram
      rw [hr]
      rfl
    rw [program, bind_of_error hread]
    refine ⟨fun hadmissible => ?_, rfl⟩
    obtain ⟨r, hr'⟩ := hadmissible.enums
    exact nomatch hr.symm.trans hr'
  | ok r =>
    obtain ⟨m', hread, henums, hdepth⟩ : ∃ m', readProgram nodes m = .ok () m' ∧ m'.enums = r ∧
        m'.depth = 0 := by
      unfold readProgram
      rw [hr]
      exact ⟨_, rfl, rfl, rfl⟩
    have hrest := decides_rest (s := s) h hr m' henums hdepth
    rw [program, bind_of_ok hread]
    split
    · next hok =>
      rw [hok] at hrest
      exact hrest.1
    · next herror =>
      rw [herror] at hrest
      exact hrest

end Program

end Lowering

/-- A program that was read from text is lowered exactly if it is admissible, whatever the settings;
if it is not, the reason is one that programs are checked for. -/
theorem generate_ok_iff_admissible (s : Settings) (source : String) (nodes : List Node)
    (h : parseSource source = .ok nodes) :
    ((∃ text, generate s nodes = .ok text) ↔ Admissible s nodes) ∧
      ∀ f, generate s nodes = .error f → (Fault.lowering f).isInternal = false := by
  have hcases := Lowering.program_cases (s := s) (WellFormed.of_parseSource h) {}
  unfold generate lowerToLines
  split
  · next hok =>
    rw [hok] at hcases
    exact ⟨iff_of_true ⟨_, rfl⟩ hcases, nofun⟩
  · next fault _ herror =>
    rw [herror] at hcases
    refine ⟨iff_of_false nofun hcases.1, fun f hf => ?_⟩
    obtain rfl := Except.error.inj hf
    exact hcases.2

/-- A case test inside a branch: without tags the same program is refused. -/
theorem admissible_nested_test :
    ∃ nodes, parseSource ("enum E \x7b case a(n: Int); \x7d let x: E = .a(1); " ++
        "if true \x7b if let x: E = .a(m: Int) \x7b print(m); \x7d \x7d") = .ok nodes ∧
      Admissible {} nodes ∧ ¬ Admissible { enumTags := false } nodes := by
  have hparse : parseSource ("enum E \x7b case a(n: Int); \x7d let x: E = .a(1); " ++
      "if true \x7b if let x: E = .a(m: Int) \x7b print(m); \x7d \x7d") =
        .ok [.enumeration ⟨"E", [⟨"E", "a", [⟨.immutable, "Int", "n"⟩]⟩]⟩,
          .assign ⟨.immutable, "E", "x"⟩ (.construct "E" "a" [.integer 1]),
          .branch (.boolean true) [.caseTest ⟨.immutable, "E", "x"⟩ "a" [⟨.immutable, "Int", "m"⟩]
            [.print [.name "m"]]]] := by decide +kernel
  refine ⟨_, hparse, (generate_ok_iff_admissible {} _ _ hparse).1.1 ⟨_, rfl⟩, fun h => ?_⟩
  obtain ⟨text, htext⟩ := (generate_ok_iff_admissible { enumTags := false } _ _ hparse).1.2 h
  exact nomatch htext

end SumLang
