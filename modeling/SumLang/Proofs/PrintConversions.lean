import SumLang.Proofs.ProgramLayout

/-! The conversions that values are printed with are those of their types: the printing statements
of the code follow the printed expressions of the program one by one, and each has the conversion
of the type that its expression has at its place. -/
namespace SumLang

open Lowering (functions statements prototypes)

namespace Node

mutual

/-- The expressions printed in a statement, each with the blocks around it. -/
def prints (Γ : List Enclosing) : Node → List (List Enclosing × Node)
  | print es => es.map fun e => (Γ, e)
  | function p body => printsAll Γ p.formals [] body
  | branch _ body => printsAll Γ [] [] body
  | caseTest _ _ bindings body => printsAll Γ bindings [] body
  | _ => []

def printsAll (Γ : List Enclosing) (bound : List Variable) (earlier : List Node) :
    List Node → List (List Enclosing × Node)
  | [] => []
  | n :: ns => prints (⟨bound, earlier⟩ :: Γ) n ++ printsAll Γ bound (earlier ++ [n]) ns

end

theorem prints_of_isExpression {e : Node} (h : e.isExpression = true) (Γ : List Enclosing) :
    e.prints Γ = [] := by
  cases e with
  | function | branch | caseTest | print => simp [isExpression] at h
  | _ => rfl

end Node

/-- The expressions that a program prints in the order of its code. With an entry point, functions
come first and know nothing of the top level; without one, all come in the order of the program. -/
def programPrints (s : Settings) (nodes : List Node) : List (List Enclosing × Node) :=
  if s.entryPoint then
    (functions nodes).flatMap (Node.prints []) ++ Node.printsAll [] [] [] (statements nodes)
  else Node.printsAll [] [] [] nodes

/-- The conversion and the value of a statement that prints by conversion. -/
def Code.printf? : Code → Option (String × String)
  | .statement (.printf conversion value) => some (conversion, value)
  | _ => none

def printfs (ls : List Line) : List (String × String) :=
  ls.filterMap fun l => l.code.printf?

/-- A conversion and a value print an expression where it stands: the value is that of the
expression, and the conversion that of its type. -/
structure PrintsAs (s : Settings) (r : Registry) (fs : List Prototype)
    (printed : List Enclosing × Node) (out : String × String) : Prop where
  value : Valued s r printed.2 out.2
  typed : ∃ type?, HasType fs printed.1 printed.2 type? ∧ Converts type? out.1
  unique : ∀ type?, HasType fs printed.1 printed.2 type? → Converts type? out.1

section Code

open CodeTree (allLines)

theorem printfs_append (ls ls' : List Line) : printfs (ls ++ ls') = printfs ls ++ printfs ls' :=
  List.filterMap_append

theorem printfs_map_line {α : Type} (level : Nat) (f : α → Code) (as : List α) :
    printfs (allLines level (as.map fun a => .line (f a))) =
      as.filterMap fun a => (f a).printf? := by
  rw [CodeTree.allLines_map_line, printfs, List.filterMap_map]
  rfl

theorem printfs_block (level : Nat) (head : Code.Head) (body : List CodeTree)
    (defines : Option String) :
    printfs ((CodeTree.block head body defines).lines level) =
      printfs (allLines (level + 1) body) := by
  rw [CodeTree.lines, printfs_append]
  exact List.append_nil _

theorem printfs_singleton (level : Nat) (t : CodeTree) :
    printfs (allLines level [t]) = printfs (t.lines level) := by
  rw [allLines, allLines, List.append_nil]

end Code

section Statements

open CodeTree (allLines)

variable {s : Settings} {r : Registry} {fs : List Prototype}

theorem PrintsAs.of_prints {Γ : List Enclosing} {e : Node} {st : Code.Statement}
    (hs : s.dialect.streams = false) (h : Prints s r fs Γ e st) :
    ∃ out, (Code.statement st).printf? = some out ∧ PrintsAs s r fs (Γ, e) out := by
  cases h with
  | printf _ hvalued htype hconversion =>
    refine ⟨_, rfl, hvalued, ⟨_, htype, hconversion⟩, fun type' htype' => ?_⟩
    rwa [htype'.unique htype]
  | stream hstreams => simp [hs] at hstreams

theorem printsAs_print {Γ : List Enclosing} {es : List Node} {sts : List Code.Statement}
    (hs : s.dialect.streams = false) (h : List.Forall₂ (Prints s r fs Γ) es sts) :
    List.Forall₂ (PrintsAs s r fs) (es.map fun e => (Γ, e))
      (sts.filterMap fun st => (Code.statement st).printf?) := by
  induction h with
  | nil => exact .nil
  | cons hst _ ih =>
    obtain ⟨out, hout, hprints⟩ := PrintsAs.of_prints hs hst
    rw [List.map_cons, List.filterMap_cons, hout]
    exact .cons hprints ih

mutual

/-- The code of a statement prints what the statement prints. -/
theorem Lays.printsAs {Γ : List Enclosing} {n : Node} {ts : List CodeTree} {level : Nat}
    (hs : s.dialect.streams = false) (h : Lays s r fs Γ n ts) :
    List.Forall₂ (PrintsAs s r fs) (n.prints Γ) (printfs (allLines level ts)) := by
  cases h with
  | function hbody =>
    rw [Node.prints, printfs_singleton, printfs_block]
    exact hbody.printsAs hs
  | branch _ hbody =>
    rw [Node.prints, printfs_singleton, printfs_block]
    exact hbody.printsAs hs
  | @caseTest _ v _ c bindings _ _ _ _ hbody =>
    have hbindings : printfs (allLines (level + 1) (c.bindingTrees s v.name bindings)) = [] := by
      refine (printfs_map_line _ _ _).trans ?_
      simp [Code.printf?, CaseLayout.binding]
    rw [Node.prints, printfs_singleton, printfs_block, CodeTree.allLines_append, printfs_append,
      hbindings, List.nil_append]
    exact hbody.printsAs hs
  | print hprints =>
    rw [Node.prints]
    refine (printfs_map_line level (fun st => .statement st) _).symm ▸ ?_
    exact printsAs_print hs hprints
  | enumeration => exact .nil
  | declare => exact .nil
  | assign => exact .nil
  | yield => exact .nil
  | expression he =>
    rw [Node.prints_of_isExpression he]
    exact .nil

theorem LaysAll.printsAs {Γ : List Enclosing} {bound : List Variable} {earlier ns : List Node}
    {ts : List CodeTree} {level : Nat} (hs : s.dialect.streams = false)
    (h : LaysAll s r fs Γ bound earlier ns ts) :
    List.Forall₂ (PrintsAs s r fs) (Node.printsAll Γ bound earlier ns)
      (printfs (allLines level ts)) := by
  cases h with
  | nil => exact .nil
  | cons hn hns =>
    rw [Node.printsAll, CodeTree.allLines_append, printfs_append]
    exact List.rel_append (hn.printsAs hs) (hns.printsAs hs)

end

end Statements

section Program

open CodeTree (allLines)

variable {s : Settings} {r : Registry} {nodes : List Node}

/-- Blank lines print nothing. -/
theorem printfs_filter (ts : List CodeTree) :
    printfs (allLines 0 (ts.filter (!·.isBlank))) = printfs (allLines 0 ts) := by
  induction ts with
  | nil => rfl
  | cons t ts ih =>
    rw [allLines, printfs_append, List.filter_cons]
    cases ht : t.isBlank with
    | false => rw [if_pos (by simp), allLines, printfs_append, ih]
    | true =>
      have hprintfs : printfs (t.lines 0) = [] := by
        unfold CodeTree.isBlank at ht
        split at ht
        · rfl
        · simp at ht
      rw [if_neg (by simp), hprintfs, ih, List.nil_append]

theorem printfs_structType (name : String) (members : List Code.Binder) :
    printfs ((CodeTree.structType name members).lines 0) = [] := by
  rw [CodeTree.structType, printfs_block]
  refine (printfs_map_line 1 (fun b => .statement (.declare b)) _).trans ?_
  simp [Code.printf?]

theorem printfs_tagList (cs : List CaseLayout) :
    printfs (allLines 1 (CodeTree.tagList cs)) = [] := by
  rw [CodeTree.allLines_tagList]
  exact (EnumLayout.filterMap_tagList (g := fun _ => none) (fun _ _ => rfl) cs).trans (by simp)

theorem printfs_constructor (enum : String) (c : CaseLayout) :
    printfs ((CodeTree.constructor s enum c).lines 0) = [] := by
  rw [CodeTree.constructor, printfs_block]
  refine (printfs_map_line 1 (fun st => .statement st) _).trans ?_
  rw [List.filterMap_eq_nil_iff]
  intro st hst
  simp only [CaseLayout.constructorBody, CaseLayout.resultStatements, List.mem_append,
    List.mem_map, List.mem_singleton] at hst
  rcases hst with ((hst | hst) | ⟨v, -, rfl⟩) | rfl
  · cases hd : s.dialect <;> simp only [hd, List.mem_cons, List.not_mem_nil, or_false] at hst
    · rcases hst with rfl | rfl <;> rfl
    · obtain rfl := hst
      rfl
  · split at hst
    · obtain rfl := List.mem_singleton.1 hst
      rfl
    · simp at hst
  · rfl
  · rfl

theorem printfs_eq_nil {ts : List CodeTree} (h : ∀ t ∈ ts, printfs (t.lines 0) = []) :
    printfs (allLines 0 ts) = [] := by
  induction ts with
  | nil => rfl
  | cons t ts ih =>
    obtain ⟨ht, hts⟩ := List.forall_mem_cons.1 h
    rw [allLines, printfs_append, ht, ih hts, List.append_nil]

/-- Nothing is printed by what stands before the functions and statements. -/
theorem printfs_preamble : printfs (allLines 0 (CodeTree.preamble s r nodes)) = [] := by
  refine printfs_eq_nil fun t ht => ?_
  simp only [CodeTree.preamble, List.mem_append, List.mem_map, List.mem_flatMap] at ht
  rcases ht with (⟨l, -, rfl⟩ | ⟨l, -, ht⟩) | ht
  · rfl
  · simp only [CodeTree.enumeration, List.mem_append, List.mem_map, List.mem_singleton] at ht
    rcases ht with ((⟨c, -, rfl⟩ | ht) | rfl) | ⟨c, -, rfl⟩
    · exact printfs_structType _ _
    · split at ht
      · obtain rfl := List.mem_singleton.1 ht
        rw [printfs_block, printfs_tagList]
      · simp at ht
    · exact printfs_structType _ _
    · exact printfs_constructor _ _
  · split at ht
    · obtain ⟨p, -, rfl⟩ := List.mem_map.1 ht
      rfl
    · simp at ht

theorem printsAs_functions {fs : List Prototype} {ns : List Node} {tss : List (List CodeTree)}
    (hs : s.dialect.streams = false) (h : List.Forall₂ (Lays s r fs []) ns tss) :
    List.Forall₂ (PrintsAs s r fs) (ns.flatMap (Node.prints []))
      (printfs (allLines 0 tss.flatten)) := by
  induction h with
  | nil => exact .nil
  | cons hn _ ih =>
    rw [List.flatMap_cons, List.flatten_cons, CodeTree.allLines_append, printfs_append]
    exact List.rel_append (hn.printsAs hs) ih

theorem LaysProgram.printsAs {ts : List CodeTree} (hs : s.dialect.streams = false)
    (h : LaysProgram s r nodes ts) :
    List.Forall₂ (PrintsAs s r (prototypes nodes)) (programPrints s nodes)
      (printfs (allLines 0 ts)) := by
  unfold programPrints
  cases h with
  | functions hentry hempty htss =>
    rw [if_pos hentry, hempty, Node.printsAll, List.append_nil]
    exact printsAs_functions hs htss
  | main hentry _ htss hts =>
    have hyield : printfs (allLines 1 [.statement (.yield "0")]) = [] := rfl
    rw [if_pos hentry, CodeTree.allLines_append, printfs_append, printfs_singleton, printfs_block,
      CodeTree.allLines_append, printfs_append, hyield, List.append_nil]
    exact List.rel_append (printsAs_functions hs htss) (hts.printsAs hs)
  | inOrder hentry hts =>
    rw [if_neg (by simp [hentry])]
    exact hts.printsAs hs

end Program

section Coverage

/-- The expressions that a node prints are among those listed, wherever it stands. -/
def Node.Listed (ls : List (List Enclosing × Node)) (n : Node) : Prop :=
  ∀ es, n = .print es → ∀ e ∈ es, ∃ Γ, (Γ, e) ∈ ls

theorem Node.Listed.mono {ls ls' : List (List Enclosing × Node)} {n : Node} (h : n.Listed ls)
    (hls : ls ⊆ ls') : n.Listed ls' := by
  intro es hes e he
  obtain ⟨Γ, hΓ⟩ := h es hes e he
  exact ⟨Γ, hls hΓ⟩

theorem listed_of_expression {e : Node} (h : WellFormed.Expression e)
    (ls : List (List Enclosing × Node)) : ∀ x ∈ e.subtrees, x.Listed ls := by
  rintro x hx es rfl
  cases Lowering.forall_subtrees_of_expression h _ hx

theorem listed_printsAll {ns : List Node}
    (h : ∀ n ∈ ns, ∀ Γ, ∀ x ∈ n.subtrees, x.Listed (n.prints Γ)) (Γ : List Enclosing)
    (bound : List Variable) (earlier : List Node) :
    ∀ x ∈ Node.allSubtrees ns, x.Listed (Node.printsAll Γ bound earlier ns) := by
  induction ns generalizing earlier with
  | nil => simp [Node.allSubtrees]
  | cons n ns ih =>
    obtain ⟨hn, hns⟩ := List.forall_mem_cons.1 h
    rw [Node.allSubtrees, ← Node.subtrees, List.forall_mem_append, Node.printsAll]
    constructor
    · intro x hx
      exact (hn _ x hx).mono (List.subset_append_left _ _)
    · intro x hx
      exact (ih hns _ x hx).mono (List.subset_append_right _ _)

/-- No expression printed in a statement is left out. -/
theorem listed_prints {n : Node} (h : WellFormed.Statement n) (Γ : List Enclosing) :
    ∀ x ∈ n.subtrees, x.Listed (n.prints Γ) := by
  have hother {ls : List (List Enclosing × Node)} {n : Node} (hn : ∀ es, n ≠ .print es) :
      n.Listed ls := fun es hes => absurd hes (hn es)
  induction h generalizing Γ with
  | function _ _ ih =>
    refine Node.forall_mem_subtrees.2 ⟨hother (by simp), ?_⟩
    exact listed_printsAll ih Γ _ _
  | branch hcondition _ ih =>
    refine Node.forall_mem_subtrees.2 ⟨hother (by simp), List.forall_mem_append.2 ⟨?_, ?_⟩⟩
    · exact listed_of_expression hcondition _
    · exact listed_printsAll ih Γ _ _
  | caseTest _ _ _ _ _ ih =>
    refine Node.forall_mem_subtrees.2 ⟨hother (by simp), ?_⟩
    exact listed_printsAll ih Γ _ _
  | enumeration => exact Node.forall_mem_subtrees.2 ⟨hother (by simp), by simp [Node.descendants]⟩
  | declare => exact Node.forall_mem_subtrees.2 ⟨hother (by simp), by simp [Node.descendants]⟩
  | assign _ hvalue =>
    refine Node.forall_mem_subtrees.2 ⟨hother (by simp), ?_⟩
    cases hvalue with
    | expression he => exact listed_of_expression he _
    | construction _ _ hargs =>
      refine Node.forall_mem_subtrees.2 ⟨hother (by simp), Node.forall_mem_allSubtrees.2 ?_⟩
      exact fun a ha => listed_of_expression (hargs a ha) _
  | yield he =>
    refine Node.forall_mem_subtrees.2 ⟨hother (by simp), ?_⟩
    exact listed_of_expression he _
  | print hargs =>
    refine Node.forall_mem_subtrees.2 ⟨?_, Node.forall_mem_allSubtrees.2 ?_⟩
    · rintro es ⟨⟩ e he
      exact ⟨Γ, List.mem_map_of_mem he⟩
    · exact fun a ha => listed_of_expression (hargs a ha) _
  | expression he => exact listed_of_expression he _

theorem listed_programPrints {nodes : List Node} (h : ∀ n ∈ nodes, WellFormed.Statement n)
    (s : Settings) : ∀ x ∈ Node.allSubtrees nodes, x.Listed (programPrints s nodes) := by
  unfold programPrints
  split
  · refine Node.forall_mem_allSubtrees.2 fun n hn x hx => ?_
    have hlisted (Γ : List Enclosing) : x.Listed (n.prints Γ) := listed_prints (h n hn) Γ x hx
    cases hd : n.isDefinition with
    | false =>
      have hstatement : n ∈ statements nodes := Lowering.mem_statements.2 ⟨hn, hd⟩
      have hall : ∀ x ∈ n.subtrees, x ∈ Node.allSubtrees (statements nodes) := by
        exact Node.forall_mem_allSubtrees.1 (fun _ => id) n hstatement
      refine (listed_printsAll (fun n hn Γ => ?_) [] [] [] x (hall x hx)).mono ?_
      · exact listed_prints (h n (Lowering.mem_statements.1 hn).1) Γ
      · exact List.subset_append_right _ _
    | true =>
      cases n with
      | function p body =>
        have hfunction : .function p body ∈ functions nodes :=
          Lowering.mem_functions.2 ⟨hn, p, body, rfl⟩
        refine (hlisted []).mono fun y hy => List.mem_append_left _ ?_
        exact List.mem_flatMap_of_mem hfunction hy
      | enumeration d =>
        obtain rfl : x = .enumeration d := by simpa [Node.subtrees, Node.descendants] using hx
        rintro es ⟨⟩
      | _ => simp [Node.isDefinition] at hd
  · exact listed_printsAll (fun n hn Γ => listed_prints (h n hn) Γ) _ _ _

end Coverage

/-- The printing statements of the code of a well-formed program are those of its printed
expressions. -/
theorem printsAs_of_generate {nodes : List Node} (hwell : ∀ n ∈ nodes, WellFormed.Statement n)
    {s : Settings} (hs : s.dialect = .c) {text : String} (h : generate s nodes = .ok text) :
    ∃ r lines, Registry.ofProgram nodes = .ok r ∧ lowerToCode s nodes = .ok lines ∧
      text = fileText (lines.map (Line.render s.indent)) ∧
      List.Forall₂ (PrintsAs s r (prototypes nodes)) (programPrints s nodes) (printfs lines) := by
  obtain ⟨r, ts, us, hr, hts, hus, hlines, htext⟩ := layout_of_generate hwell h
  refine ⟨r, _, hr, hlines, htext, ?_⟩
  have hstreams : s.dialect.streams = false := by rw [hs]; rfl
  have hprintfs : printfs (CodeTree.allLines 0 us) = printfs (CodeTree.allLines 0 ts) := by
    rw [← printfs_filter, hus, CodeTree.allLines_append, printfs_append, printfs_preamble,
      List.nil_append]
  rw [hprintfs]
  exact hts.printsAs hstreams

/-- The printing statements of the code are those of the printed expressions of the program one by
one, and each has the conversion of the type that the scopes around the expression give it. -/
theorem printf_conversions (source : String) (nodes : List Node)
    (hsource : parseSource source = .ok nodes) (s : Settings) (hs : s.dialect = .c) (text : String)
    (h : generate s nodes = .ok text) :
    ∃ r lines, Registry.ofProgram nodes = .ok r ∧ lowerToCode s nodes = .ok lines ∧
      text = fileText (lines.map (Line.render s.indent)) ∧
      List.Forall₂ (PrintsAs s r (prototypes nodes)) (programPrints s nodes) (printfs lines) ∧
      ∀ es, Node.print es ∈ Node.allSubtrees nodes →
        ∀ e ∈ es, ∃ Γ, (Γ, e) ∈ programPrints s nodes := by
  have hwell := WellFormed.of_parseSource hsource
  obtain ⟨r, lines, hr, hlines, htext, hprints⟩ := printsAs_of_generate hwell hs h
  refine ⟨r, lines, hr, hlines, htext, hprints, fun es hes e he => ?_⟩
  exact listed_programPrints hwell s _ hes es rfl e he

/-- A parameter shadows a variable of the top level, and a variable of a block the parameter. -/
theorem printf_conversions_shadowed :
    ∃ nodes r lines, parseSource ("let x: Int = 1; func f(x: Float) -> Float \x7b if true \x7b " ++
        "print(x); let x: String = \"a\"; print(x); \x7d return x; \x7d print(x, f(x) + x);") =
          .ok nodes ∧ lowerToCode {} nodes = .ok lines ∧
      printfs lines = [("%f", "x"), ("%s", "x"), ("%d", "x"), ("%f", "f(x) + x")] ∧
      List.Forall₂ (PrintsAs {} r (prototypes nodes)) (programPrints {} nodes) (printfs lines) := by
  have hparse : parseSource ("let x: Int = 1; func f(x: Float) -> Float \x7b if true \x7b " ++
      "print(x); let x: String = \"a\"; print(x); \x7d return x; \x7d print(x, f(x) + x);") =
        .ok [.assign ⟨.immutable, "Int", "x"⟩ (.integer 1),
          .function ⟨"f", [⟨.immutable, "Float", "x"⟩], "Float"⟩
            [.branch (.boolean true) [.print [.name "x"],
              .assign ⟨.immutable, "String", "x"⟩ (.string "a"), .print [.name "x"]],
            .yield (.name "x")],
          .print [.name "x", .binary (.call "f" [.name "x"]) "+" (.name "x")]] := by
    decide +kernel
  obtain ⟨r, lines, -, hlines, -, hprints, -⟩ := printf_conversions _ _ hparse {} rfl _ rfl
  refine ⟨_, r, lines, hparse, hlines, ?_, hprints⟩
  obtain rfl := Except.ok.inj hlines
  decide +kernel

end SumLang
