import SumLang.Proofs.Acceptance
import SumLang.Proofs.StatementLayout

/-! What programs are lowered to: a header, the enums, the heads of functions, and then the code of
the functions and statements. -/
namespace SumLang

open Lowering

namespace CodeTree

def structType (name : String) (members : List Code.Binder) : CodeTree :=
  .block (.structType name)
    ((if members.isEmpty then [emptyMember] else members).map fun b => .statement (.declare b))
    (some name)

def tagList : List CaseLayout → List CodeTree
  | [] => []
  | [c] => [.line (.enumerator c.tag true)]
  | c :: cs => .line (.enumerator c.tag false) :: tagList cs

def constructor (s : Settings) (enum : String) (c : CaseLayout) : CodeTree :=
  .block (.function (c.signature s enum)) ((c.constructorBody s enum).map .statement) none

def enumeration (s : Settings) (l : EnumLayout) : List CodeTree :=
  l.cases.map (fun c => structType c.structName (c.fields.map s.binder)) ++
    (if l.isTagged s then [.block .enumType (tagList l.cases) (some l.tagType)] else []) ++
    [structType l.name (l.outerMembers s)] ++ l.cases.map (constructor s l.name)

def preamble (s : Settings) (r : Registry) (nodes : List Node) : List CodeTree :=
  (s.dialect.includeLines ++ s.dialect.namespaceLine.toList).map (fun l => .line (.header l)) ++
    r.enums.flatMap (enumeration s) ++
    (if s.forwardDeclarations then
      (prototypes nodes).map fun p => .statement (.prototype (s.signature p)) else [])

def isBlank : CodeTree → Bool
  | line .blank => true
  | _ => false

theorem allLines_map_line {α : Type} (level : Nat) (f : α → Code) (as : List α) :
    allLines level (as.map fun a => .line (f a)) = as.map fun a => ⟨level, f a⟩ := by
  induction as with
  | nil => rfl
  | cons a as ih => simp [allLines, lines, ih]

theorem allLines_map {α : Type} (level : Nat) (f : α → CodeTree) (as : List α) :
    allLines level (as.map f) = as.flatMap fun a => (f a).lines level := by
  induction as with
  | nil => rfl
  | cons a as ih => simp [allLines, ih]

theorem lines_structType (name : String) (members : List Code.Binder) :
    (structType name members).lines 0 = SumLang.structType name members := by
  rw [structType, SumLang.structType, lines]
  exact congrArg (_ :: · ++ _) (allLines_map_line 1 (fun b => .statement (.declare b)) _)

theorem lines_constructor (s : Settings) (enum : String) (c : CaseLayout) :
    (constructor s enum c).lines 0 = c.constructorLines s enum := by
  rw [constructor, CaseLayout.constructorLines, lines]
  exact congrArg (_ :: · ++ _) (allLines_map_line 1 (fun st => .statement st) _)

theorem allLines_tagList (cs : List CaseLayout) :
    allLines 1 (tagList cs) = EnumLayout.tagList cs := by
  fun_induction tagList cs with
  | case1 => rfl
  | case2 c => rfl
  | case3 c cs hcs ih =>
    rw [EnumLayout.tagList, allLines, ih]
    · rfl
    · exact hcs

theorem allLines_enumeration (s : Settings) (l : EnumLayout) :
    allLines 0 (enumeration s l) = l.lines s := by
  have htags : allLines 0 (if l.isTagged s then
      [.block .enumType (tagList l.cases) (some l.tagType)] else []) = l.tagLines s := by
    rw [EnumLayout.tagLines]
    split
    · simp [allLines, lines, allLines_tagList]
    · rfl
  have houter : allLines 0 [structType l.name (l.outerMembers s)] = l.outerLines s := by
    simp [allLines, lines_structType, EnumLayout.outerLines]
  rw [enumeration, EnumLayout.lines, allLines_append, allLines_append, allLines_append, htags,
    houter, allLines_map, allLines_map]
  simp only [lines_structType, lines_constructor]
  rfl

/-- Every tree but a blank line ends in a line that is not blank. -/
theorem exists_last {t : CodeTree} (h : t.isBlank = false) (level : Nat) :
    ∃ ls l, t.lines level = ls ++ [l] ∧ (l.code == .blank) = false := by
  cases t with
  | line code =>
    refine ⟨[], ⟨level, code⟩, rfl, ?_⟩
    cases code <;> first | rfl | exact nomatch h
  | block head body defines => exact ⟨_, ⟨level, .leave defines⟩, by rw [lines], rfl⟩

theorem dropBlankEnd_concat (ls : List Line) (l : Line) :
    Line.dropBlankEnd (ls ++ [l]) =
      if l.code == .blank then Line.dropBlankEnd ls else ls ++ [l] := by
  unfold Line.dropBlankEnd
  rw [List.reverse_append, List.reverse_singleton, List.singleton_append, List.dropWhile_cons]
  split <;> simp

/-- The blank lines at the end are trees of their own. -/
theorem exists_dropBlankEnd (ts : List CodeTree) :
    ∃ us, Line.dropBlankEnd (allLines 0 ts) = allLines 0 us ∧
      us.filter (!·.isBlank) = ts.filter (!·.isBlank) := by
  induction ts using List.reverseRecOn with
  | nil => exact ⟨[], rfl, rfl⟩
  | append_singleton ts t ih =>
    cases ht : t.isBlank with
    | true =>
      have hlines : allLines 0 [t] = [⟨0, .blank⟩] := by
        unfold isBlank at ht
        split at ht
        · rfl
        · exact nomatch ht
      obtain ⟨us, hus, hfilter⟩ := ih
      refine ⟨us, ?_, by simp [hfilter, ht]⟩
      rw [allLines_append, hlines, dropBlankEnd_concat]
      exact hus
    | false =>
      obtain ⟨ls, l, hlast, hl⟩ := exists_last ht 0
      refine ⟨ts ++ [t], ?_, rfl⟩
      have hlines : allLines 0 (ts ++ [t]) = allLines 0 ts ++ ls ++ [l] := by
        simp [allLines, hlast]
      rw [hlines, dropBlankEnd_concat, hl, if_neg (by simp)]

end CodeTree

/-- The code of the functions and statements of a program. With an entry point, functions stand
outside of all blocks and statements in `main`; without one, all stand in one block. -/
inductive LaysProgram (s : Settings) (r : Registry) (nodes : List Node) : List CodeTree → Prop where
  | functions {tss} : s.entryPoint = true → statements nodes = [] →
      List.Forall₂ (Lays s r (prototypes nodes) []) (functions nodes) tss →
      LaysProgram s r nodes tss.flatten
  | main {tss ts} : s.entryPoint = true → statements nodes ≠ [] →
      List.Forall₂ (Lays s r (prototypes nodes) []) (functions nodes) tss →
      LaysAll s r (prototypes nodes) [] [] [] (statements nodes) ts →
      LaysProgram s r nodes (tss.flatten ++
        [.block (.function mainSignature) (ts ++ [.statement (.yield "0")]) none])
  | inOrder {ts} : s.entryPoint = false →
      LaysAll s r (prototypes nodes) [] [] [] nodes ts → LaysProgram s r nodes ts

theorem Lays.not_isBlank {s : Settings} {r : Registry} {fs : List Prototype} {Γ : List Enclosing}
    {n : Node} {ts : List CodeTree} (h : Lays s r fs Γ n ts) : ∀ t ∈ ts, t.isBlank = false := by
  cases h <;> simp [CodeTree.isBlank, CodeTree.statement]

namespace Lowering

variable {s : Settings} {r : Registry} {fs : List Prototype} {nodes : List Node} {m m' : Memory}

/-- A memory that has some more code than another and perhaps blank lines between. -/
def Grows (m m' : Memory) (ts : List CodeTree) : Prop :=
  ∃ us, m.Extends m' us ∧ us.filter (!·.isBlank) = ts

theorem Grows.trans {m₁ : Memory} {ts us : List CodeTree} (h : Grows m m₁ ts)
    (h' : Grows m₁ m' us) : Grows m m' (ts ++ us) := by
  obtain ⟨ts', hts, rfl⟩ := h
  obtain ⟨us', hus, rfl⟩ := h'
  exact ⟨ts' ++ us', hts.trans hus, List.filter_append ..⟩

theorem Grows.of_extends {ts : List CodeTree} (h : m.Extends m' ts)
    (hts : ∀ t ∈ ts, t.isBlank = false) : Grows m m' ts := by
  refine ⟨ts, h, List.filter_eq_self.2 fun t ht => ?_⟩
  rw [hts t ht]
  rfl

theorem Grows.blank (m : Memory) : Grows m (m.write .blank) [] :=
  ⟨[.line .blank], .write m _, rfl⟩

/-- A loop whose steps each add code. -/
theorem Grows.forM {α : Type} {as : List α} {f : α → Lowering Unit} {g : α → List CodeTree}
    {P : Memory → Prop} {u : Unit}
    (h : ∀ a ∈ as, ∀ m m', f a m = .ok u m' → P m → Grows m m' (g a) ∧ P m')
    (hrun : as.forM f m = .ok u m') (hm : P m) : Grows m m' (as.flatMap g) ∧ P m' := by
  induction as generalizing m with
  | nil =>
    obtain ⟨-, rfl⟩ := pure_eq_ok.1 hrun
    exact ⟨⟨[], .refl m, rfl⟩, hm⟩
  | cons a as ih =>
    obtain ⟨ha, has⟩ := List.forall_mem_cons.1 h
    obtain ⟨_, m₁, hstep, hrest⟩ := bind_eq_ok.1 hrun
    obtain ⟨hgrows, hm₁⟩ := ha m m₁ hstep hm
    obtain ⟨hgrows', hm'⟩ := ih has hrest hm₁
    exact ⟨hgrows.trans hgrows', hm'⟩

section Preamble

variable {Γ : List Enclosing} {u : Unit}

theorem grows_write {code : Code} (hcode : (CodeTree.line code).isBlank = false)
    (hrun : write code m = .ok u m') (hm : m.At r fs Γ) :
    Grows m m' [.line code] ∧ m'.At r fs Γ := by
  have hrun : EStateM.Result.ok () (m.write code) = .ok u m' := hrun
  obtain ⟨-, rfl⟩ := EStateM.Result.ok.inj hrun
  exact ⟨.of_extends (.write m code) (by simpa using hcode), hm.write code⟩

theorem grows_writeHeader (hrun : writeHeader s m = .ok u m') (hm : m.At r fs Γ) :
    Grows m m' ((s.dialect.includeLines ++ s.dialect.namespaceLine.toList).map
      fun l => .line (.header l)) ∧ m'.At r fs Γ := by
  obtain ⟨_, m₁, hlines, hrest⟩ := bind_eq_ok.1 hrun
  obtain ⟨hgrows, hm₁⟩ := Grows.forM (g := fun l => [.line (.header l)])
    (fun l _ _ _ hrun hm => grows_write rfl hrun hm) hlines hm
  have hrest : EStateM.Result.ok () (m₁.write .blank) = .ok u m' := hrest
  obtain ⟨-, rfl⟩ := EStateM.Result.ok.inj hrest
  rw [List.map_eq_flatMap]
  exact ⟨by simpa using hgrows.trans (.blank m₁), hm₁.write _⟩

theorem not_isBlank_enumeration (l : EnumLayout) :
    ∀ t ∈ CodeTree.enumeration s l, t.isBlank = false := by
  intro t ht
  simp only [CodeTree.enumeration, List.mem_append, List.mem_map, List.mem_singleton] at ht
  rcases ht with ((⟨c, -, rfl⟩ | ht) | rfl) | ⟨c, -, rfl⟩
  · rfl
  · split at ht
    · obtain rfl := List.mem_singleton.1 ht
      rfl
    · simp at ht
  · rfl
  · rfl

theorem grows_writeEnums (hrun : writeEnums s m = .ok u m') (hm : m.At r fs Γ)
    (hlevel : m.level = 0) :
    Grows m m' (r.enums.flatMap (CodeTree.enumeration s)) ∧ m'.At r fs Γ := by
  have hrun : (m.enums.enums.forM fun l => do
      writeLines (l.lines s)
      write .blank) m = .ok u m' := hrun
  rw [hm.enums] at hrun
  -- An enum brings its own indentation, which is right at the outermost level.
  have hstep : ∀ l ∈ r.enums, ∀ m m', (do
      writeLines (l.lines s)
      write .blank : Lowering Unit) m = .ok u m' → m.At r fs Γ ∧ m.level = 0 →
      Grows m m' (CodeTree.enumeration s l) ∧ m'.At r fs Γ ∧ m'.level = 0 := by
    intro l _ m m' hrun hm
    have hrun : EStateM.Result.ok ()
        (({ m with lines := m.lines ++ (l.lines s).toArray } : Memory).write .blank) =
        .ok u m' := hrun
    obtain ⟨-, rfl⟩ := EStateM.Result.ok.inj hrun
    have hextends : m.Extends { m with lines := m.lines ++ (l.lines s).toArray }
        (CodeTree.enumeration s l) := by
      refine ⟨?_, rfl⟩
      rw [hm.2, CodeTree.allLines_enumeration]
      simp
    have hgrows := (Grows.of_extends hextends (not_isBlank_enumeration l)).trans (.blank _)
    exact ⟨by simpa using hgrows, ⟨hm.1.enums, hm.1.functions, hm.1.scopes⟩, hm.2⟩
  obtain ⟨hgrows, hm', -⟩ := Grows.forM hstep hrun ⟨hm, hlevel⟩
  exact ⟨hgrows, hm'⟩

theorem grows_writeForward (hrun : writeForward s nodes m = .ok u m') (hm : m.At r fs Γ) :
    Grows m m' (if s.forwardDeclarations then (prototypes nodes).map
      fun p => .statement (.prototype (s.signature p)) else []) ∧ m'.At r fs Γ := by
  unfold writeForward at hrun
  split at hrun
  · next hforward =>
    obtain ⟨_, m₁, hheads, hrest⟩ := bind_eq_ok.1 hrun
    obtain ⟨hgrows, hm₁⟩ := Grows.forM
      (g := fun p => [CodeTree.statement (.prototype (s.signature p))])
      (fun p _ _ _ hrun hm => grows_write rfl hrun hm) hheads hm
    have hrest : EStateM.Result.ok () (m₁.write .blank) = .ok u m' := hrest
    obtain ⟨-, rfl⟩ := EStateM.Result.ok.inj hrest
    rw [if_pos (by simp_all), List.map_eq_flatMap]
    exact ⟨by simpa using hgrows.trans (.blank m₁), hm₁.write _⟩
  · next hforward =>
    obtain ⟨-, rfl⟩ := pure_eq_ok.1 hrun
    have hnone : (if s.forwardDeclarations then (prototypes nodes).map
        fun p => CodeTree.statement (.prototype (s.signature p)) else []) = [] := by
      split <;> simp_all
    rw [hnone]
    exact ⟨⟨[], .refl m, rfl⟩, hm⟩

end Preamble

section Body

variable {u : Unit}

theorem topLevel_function {p : Prototype} {body : List Node} {Γ : List Enclosing}
    (h : ∀ n ∈ body, WellFormed.Statement n)
    (hrun : topLevel s (.function p body) m = .ok u m') (hm : m.At r fs Γ) :
    ∃ ts, Lays s r fs Γ (.function p body) ts ∧ Grows m m' ts ∧ m'.At r fs Γ := by
  obtain ⟨_, m₁, hstatement, hrest⟩ := bind_eq_ok.1 hrun
  obtain ⟨value, hlower⟩ := lower_of_statement rfl hstatement
  obtain ⟨ts, hts, hextends, hat⟩ :=
    lays_of_function (fun n hn => laid_statement (h n hn)) hlower hm
  have hrest : EStateM.Result.ok () (m₁.write .blank) = .ok u m' := hrest
  obtain ⟨-, rfl⟩ := EStateM.Result.ok.inj hrest
  have hgrows := (Grows.of_extends hextends hts.not_isBlank).trans (.blank m₁)
  exact ⟨ts, hts, by simpa using hgrows, hat.write _⟩

theorem wellFormed_body {p : Prototype} {body : List Node}
    (h : WellFormed.Statement (.function p body)) : ∀ n ∈ body, WellFormed.Statement n := by
  cases h with
  | function _ hbody => exact hbody
  | expression he => cases he

/-- Functions that stand outside of all blocks. -/
theorem grows_functions {ns : List Node}
    (h : ∀ n ∈ ns, WellFormed.Statement n ∧ ∃ p body, n = .function p body)
    (hrun : ns.forM (topLevel s) m = .ok u m') (hm : m.At r fs []) :
    ∃ tss, List.Forall₂ (Lays s r fs []) ns tss ∧ Grows m m' tss.flatten ∧ m'.At r fs [] := by
  induction ns generalizing m with
  | nil =>
    obtain ⟨-, rfl⟩ := pure_eq_ok.1 hrun
    exact ⟨[], .nil, ⟨[], .refl m, rfl⟩, hm⟩
  | cons n ns ih =>
    obtain ⟨⟨hn, p, body, rfl⟩, hns⟩ := List.forall_mem_cons.1 h
    obtain ⟨_, m₁, hstep, hrest⟩ := bind_eq_ok.1 hrun
    obtain ⟨ts, hts, hgrows, hat⟩ := topLevel_function (wellFormed_body hn) hstep hm
    obtain ⟨tss, htss, hgrows', hat'⟩ := ih hns hrest hat
    exact ⟨ts :: tss, .cons hts htss, hgrows.trans hgrows', hat'⟩

theorem lays_of_topLevel {n : Node} {b : Enclosing} (h : WellFormed.Statement n)
    (hrun : topLevel s n m = .ok u m') (hm : m.At r fs [b]) :
    ∃ ts, Lays s r fs [b] n ts ∧ Grows m m' ts ∧ m'.At r fs [⟨b.bound, b.earlier ++ [n]⟩] := by
  unfold topLevel at hrun
  split at hrun
  · obtain ⟨-, rfl⟩ := pure_eq_ok.1 hrun
    exact ⟨[], .enumeration, ⟨[], .refl m, rfl⟩, hm.skip rfl⟩
  · obtain ⟨ts, hts, hgrows, hat⟩ := topLevel_function (wellFormed_body h) hrun hm
    exact ⟨ts, hts, hgrows, hat.skip rfl⟩
  · obtain ⟨ts, hts, hextends, hat⟩ := laid_statement h _ _ _ _ hrun hm
    exact ⟨ts, hts, .of_extends hextends hts.not_isBlank, hat⟩

/-- Functions and statements in the order of the program. -/
theorem grows_inOrder {ns earlier : List Node} (h : ∀ n ∈ ns, WellFormed.Statement n)
    (hrun : ns.forM (topLevel s) m = .ok u m') (hm : m.At r fs [⟨[], earlier⟩]) :
    ∃ ts, LaysAll s r fs [] [] earlier ns ts ∧ Grows m m' ts := by
  induction ns generalizing m earlier with
  | nil =>
    obtain ⟨-, rfl⟩ := pure_eq_ok.1 hrun
    exact ⟨[], .nil, ⟨[], .refl m, rfl⟩⟩
  | cons n ns ih =>
    obtain ⟨hn, hns⟩ := List.forall_mem_cons.1 h
    obtain ⟨_, m₁, hstep, hrest⟩ := bind_eq_ok.1 hrun
    obtain ⟨ts, hts, hgrows, hat⟩ := lays_of_topLevel hn hstep hm
    obtain ⟨us, hus, hgrows'⟩ := ih hns hrest hat
    exact ⟨ts ++ us, .cons hts hus, hgrows.trans hgrows'⟩

theorem grows_writeMain {body : List Node} (h : ∀ n ∈ body, WellFormed.Statement n)
    (hrun : writeMain s body m = .ok u m') (hm : m.At r fs []) :
    ∃ ts, LaysAll s r fs [] [] [] body ts ∧
      Grows m m' [.block (.function mainSignature) (ts ++ [.statement (.yield "0")]) none] := by
  have hrun : (lowerAll s body >>= fun _ => writeStatement (.yield "0") >>= fun _ => leave >>=
      fun _ => write (.leave none)) (m.write (.enter (.function mainSignature))).enter =
      .ok u m' := hrun
  obtain ⟨_, m₁, hbody, hrest⟩ := bind_eq_ok.1 hrun
  obtain ⟨ts, hts, hextends, -⟩ :=
    laysAll_of_lowerAll (fun n hn => laid_statement (h n hn)) hbody (hm.write _).enter
  have hrest : EStateM.Result.ok ()
      ((m₁.write (.statement (.yield "0"))).leave.write (.leave none)) = .ok u m' := hrest
  obtain ⟨-, rfl⟩ := EStateM.Result.ok.inj hrest
  have hblock := Memory.Extends.block (hextends.trans (.write m₁ (.statement (.yield "0"))))
  exact ⟨ts, hts, .of_extends hblock (by simp [CodeTree.isBlank])⟩

theorem grows_writeBody (h : ∀ n ∈ nodes, WellFormed.Statement n)
    (hrun : writeBody s nodes m = .ok u m') (hm : m.At r (prototypes nodes) [⟨[], []⟩]) :
    ∃ ts, LaysProgram s r nodes ts ∧ Grows m m' ts := by
  have houter : m.At r (prototypes nodes) [] := by
    obtain ⟨outer, hscopes, hempty⟩ := hm.scopes
    exact ⟨hm.enums, hm.functions, [] :: outer, hscopes, by simpa using hempty⟩
  unfold writeBody at hrun
  split at hrun
  · next hentry =>
    obtain ⟨_, m₁, hfunctions, hrest⟩ := bind_eq_ok.1 hrun
    have hwell : ∀ n ∈ functions nodes, WellFormed.Statement n ∧ ∃ p body, n = .function p body :=
      fun n hn => ⟨h n (mem_functions.1 hn).1, (mem_functions.1 hn).2⟩
    obtain ⟨tss, htss, hgrows, hat⟩ := grows_functions hwell hfunctions houter
    split at hrest
    · next hne =>
      have hne : statements nodes ≠ [] := by simpa using hne
      have hwell : ∀ n ∈ statements nodes, WellFormed.Statement n :=
        fun n hn => h n (mem_statements.1 hn).1
      obtain ⟨ts, hts, hgrows'⟩ := grows_writeMain hwell hrest hat
      exact ⟨_, .main hentry hne htss hts, hgrows.trans hgrows'⟩
    · next hempty =>
      obtain ⟨-, rfl⟩ := pure_eq_ok.1 hrest
      exact ⟨_, .functions hentry (by simpa using hempty) htss, hgrows⟩
  · next hentry =>
    obtain ⟨ts, hts, hgrows⟩ := grows_inOrder h hrun hm
    exact ⟨ts, .inOrder (by simpa using hentry) hts, hgrows⟩

end Body

theorem readProgram_eq_ok {u : Unit} (hrun : readProgram nodes m = .ok u m') :
    ∃ r, Registry.ofProgram nodes = .ok r ∧ m'.At r (prototypes nodes) [⟨[], []⟩] ∧
      m'.level = 0 ∧ m'.lines.toList = [] := by
  unfold readProgram at hrun
  cases hr : Registry.ofProgram nodes with
  | error f =>
    rw [hr] at hrun
    exact nomatch hrun
  | ok r =>
    rw [hr] at hrun
    have hrun : EStateM.Result.ok () { restart m with
        enums := r
        functions := entries Prototype.name Prototype.result (prototypes nodes) } =
        .ok u m' := hrun
    obtain ⟨-, rfl⟩ := EStateM.Result.ok.inj hrun
    exact ⟨r, rfl, ⟨rfl, rfl, [], rfl, by simp⟩, rfl, rfl⟩

theorem checkEntryPoint_eq_ok {u : Unit} (hrun : checkEntryPoint s nodes m = .ok u m') :
    m = m' := by
  unfold checkEntryPoint at hrun
  split at hrun
  · exact nomatch hrun
  · exact (pure_eq_ok.1 hrun).2

/-- The code of a program that is lowered, with blank lines between its parts. -/
theorem layout_of_program (h : ∀ n ∈ nodes, WellFormed.Statement n) {texts : List String}
    (hrun : program s nodes m = .ok texts m') :
    ∃ r ts us, Registry.ofProgram nodes = .ok r ∧ LaysProgram s r nodes ts ∧
      us.filter (!·.isBlank) = CodeTree.preamble s r nodes ++ ts ∧
      m'.lines.toList = CodeTree.allLines 0 us ∧
      texts = m'.lines.toList.map (Line.render s.indent) := by
  obtain ⟨_, m₁, hread, hrest⟩ := bind_eq_ok.1 hrun
  obtain ⟨_, m₂, hcheck, hrest⟩ := bind_eq_ok.1 hrest
  obtain ⟨_, m₃, hheader, hrest⟩ := bind_eq_ok.1 hrest
  obtain ⟨_, m₄, henums, hrest⟩ := bind_eq_ok.1 hrest
  obtain ⟨_, m₅, hforward, hrest⟩ := bind_eq_ok.1 hrest
  obtain ⟨_, m₆, hbody, hend⟩ := bind_eq_ok.1 hrest
  obtain ⟨r, hr, hat, hlevel, hnil⟩ := readProgram_eq_ok hread
  obtain rfl := checkEntryPoint_eq_ok hcheck
  obtain ⟨hgrows₁, hat⟩ := grows_writeHeader hheader hat
  have hlevel₁ : m₃.level = 0 := by
    obtain ⟨us, hextends, -⟩ := hgrows₁
    exact hextends.level.trans hlevel
  obtain ⟨hgrows₂, hat⟩ := grows_writeEnums henums hat hlevel₁
  obtain ⟨hgrows₃, hat⟩ := grows_writeForward hforward hat
  obtain ⟨ts, hts, hgrows₄⟩ := grows_writeBody h hbody hat
  obtain ⟨us, hextends, hfilter⟩ := ((hgrows₁.trans hgrows₂).trans hgrows₃).trans hgrows₄
  have hlines := hextends.lines
  rw [hnil, hlevel, List.nil_append] at hlines
  obtain ⟨vs, hvs, hfilter'⟩ := CodeTree.exists_dropBlankEnd us
  have hend : EStateM.Result.ok
      ((Line.dropBlankEnd m₆.lines.toList).toArray.toList.map (Line.render s.indent))
      { m₆ with lines := (Line.dropBlankEnd m₆.lines.toList).toArray } = .ok texts m' := hend
  obtain ⟨rfl, rfl⟩ := EStateM.Result.ok.inj hend
  refine ⟨r, ts, vs, hr, hts, hfilter'.trans hfilter, ?_, rfl⟩
  rw [← hvs, ← hlines]

end Lowering

def lowerToCode (s : Settings) (nodes : List Node) : Except LoweringFault (List Line) :=
  match Lowering.program s nodes {} with
  | .ok _ m => .ok m.lines.toList
  | .error fault _ => .error fault

theorem layout_of_generate {s : Settings} {nodes : List Node} {text : String}
    (h : ∀ n ∈ nodes, WellFormed.Statement n) (hrun : generate s nodes = .ok text) :
    ∃ r ts us, Registry.ofProgram nodes = .ok r ∧ LaysProgram s r nodes ts ∧
      us.filter (!·.isBlank) = CodeTree.preamble s r nodes ++ ts ∧
      lowerToCode s nodes = .ok (CodeTree.allLines 0 us) ∧
      text = fileText ((CodeTree.allLines 0 us).map (Line.render s.indent)) := by
  unfold generate lowerToLines at hrun
  cases hprogram : Lowering.program s nodes {} with
  | error f m' =>
    rw [hprogram] at hrun
    exact nomatch hrun
  | ok texts m' =>
    rw [hprogram] at hrun
    obtain rfl : fileText texts = text := Except.ok.inj hrun
    obtain ⟨r, ts, us, hr, hts, hfilter, hlines, rfl⟩ := Lowering.layout_of_program h hprogram
    refine ⟨r, ts, us, hr, hts, hfilter, ?_, by rw [hlines]⟩
    rw [lowerToCode, hprogram, ← hlines]

end SumLang
