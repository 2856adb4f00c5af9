import SumLang.Proofs.EnumSection
import SumLang.Proofs.ProgramLayout

/-! The sections of the code of a program: the header, the declarations of the enums, and the rest,
in which no struct type is defined. This holds of every tree that can be lowered, also of one that
no text has. -/
namespace SumLang

def Line.nonblank (ls : List Line) : List Line := ls.filter (·.code != .blank)

namespace Line

@[simp] theorem nonblank_append (ls ks : List Line) :
    nonblank (ls ++ ks) = nonblank ls ++ nonblank ks :=
  List.filter_append ..

theorem nonblank_eq_self {ls : List Line} (h : ∀ k ∈ ls, k.code ≠ .blank) : nonblank ls = ls :=
  List.filter_eq_self.2 fun k hk => by simpa using h k hk

theorem nonblank_dropBlankEnd (ls : List Line) : nonblank (dropBlankEnd ls) = nonblank ls := by
  induction ls using List.reverseRecOn with
  | nil => rfl
  | append_singleton ls l ih =>
    rw [CodeTree.dropBlankEnd_concat]
    split
    · next hl => rw [ih, nonblank_append, nonblank, nonblank, List.filter_singleton]; simp_all
    · rfl

/-- Lines that are not blank stay whatever follows them. -/
theorem dropBlankEnd_append {ls : List Line} (h : ∀ k ∈ ls, k.code ≠ .blank) (ks : List Line) :
    dropBlankEnd (ls ++ ks) = ls ++ dropBlankEnd ks := by
  induction ks using List.reverseRecOn with
  | nil =>
    rcases List.eq_nil_or_concat ls with rfl | ⟨init, l, rfl⟩
    · rfl
    · have hl : (l.code == .blank) = false := by simpa using h l (by simp)
      simp [hl, dropBlankEnd]
  | append_singleton ks k ih =>
    rw [← List.append_assoc, CodeTree.dropBlankEnd_concat, CodeTree.dropBlankEnd_concat, ih]
    split <;> simp

end Line

/-- Some lines were added between two memories, and none of them opens a struct type. -/
def Memory.Appended (m m' : Memory) : Prop :=
  ∃ ls, m'.lines.toList = m.lines.toList ++ ls ∧ ∀ k ∈ ls, ∀ x, k.code ≠ .enter (.structType x)

namespace Memory.Appended

variable {m m₁ m₂ : Memory}

theorem of_lines (h : m₁.lines = m.lines) : m.Appended m₁ := ⟨[], by simp [h], by simp⟩

theorem trans (h : m.Appended m₁) (h' : m₁.Appended m₂) : m.Appended m₂ := by
  obtain ⟨ls, hls, hstruct⟩ := h
  obtain ⟨ls', hls', hstruct'⟩ := h'
  exact ⟨ls ++ ls', by rw [hls', hls, List.append_assoc],
    List.forall_mem_append.2 ⟨hstruct, hstruct'⟩⟩

theorem write (m : Memory) {code : Code} (h : ∀ x, code ≠ .enter (.structType x)) :
    m.Appended (m.write code) :=
  ⟨[⟨m.level, code⟩], by simp [Memory.write], by simpa using h⟩

end Memory.Appended

namespace Lowering

variable {α β : Type} {s : Settings}

def Appends (x : Lowering α) : Prop := ∀ m a m', x m = .ok a m' → m.Appended m'

namespace Appends

theorem pure (a : α) : Appends (Pure.pure a : Lowering α) := by
  intro m b m' h
  obtain ⟨-, rfl⟩ := pure_eq_ok.1 h
  exact .of_lines rfl

theorem throw (f : LoweringFault) : Appends (throw f : Lowering α) := by
  intro m a m' h
  cases h

theorem bind {x : Lowering α} {f : α → Lowering β} (hx : Appends x) (hf : ∀ a, Appends (f a)) :
    Appends (x >>= f) := by
  intro m b m' h
  obtain ⟨a, m₁, hrun, hrest⟩ := bind_eq_ok.1 h
  exact (hx m a m₁ hrun).trans (hf a m₁ b m' hrest)

theorem modify {f : Memory → Memory} (hf : ∀ m : Memory, m.Appended (f m)) :
    Appends (modify f : Lowering Unit) := by
  intro m a m' h
  cases h
  exact hf m

theorem get : Appends (get : Lowering Memory) := by
  intro m a m' h
  cases h
  exact .of_lines rfl

theorem forM {as : List α} {f : α → Lowering Unit} (hf : ∀ a, Appends (f a)) :
    Appends (as.forM f) := by
  induction as with
  | nil => exact .pure ()
  | cons a as ih => exact (hf a).bind fun _ => ih

theorem write {code : Code} (h : ∀ x, code ≠ .enter (.structType x)) :
    Appends (Lowering.write code) :=
  modify fun m => .write m h

theorem writeStatement (st : Code.Statement) : Appends (Lowering.writeStatement st) :=
  write (by simp)

theorem declare (v : Variable) : Appends (Lowering.declare v) := by
  refine modify fun m => .of_lines ?_
  unfold Memory.declare
  split <;> rfl

theorem enter : Appends Lowering.enter := modify fun _ => .of_lines rfl

theorem leave : Appends Lowering.leave := modify fun _ => .of_lines rfl

end Appends

theorem appends_integerText (n : Int) : Appends (integerText n) := by
  unfold integerText
  split
  · exact .throw _
  · exact .pure _

theorem appends_joinValues (values : List (Option String)) : Appends (joinValues values) := by
  unfold joinValues
  split
  · exact .pure _
  · exact .throw _

theorem appends_precedenceOf (operator : String) : Appends (precedenceOf operator) := by
  unfold precedenceOf
  split
  · exact .pure _
  · exact .throw _

theorem appends_ofEnums (x : Registry → Except EnumFault α) : Appends (ofEnums x) := by
  refine Appends.get.bind fun m => ?_
  split
  · exact .pure _
  · exact .throw _

theorem appends_constructorOf (enum case : String) : Appends (constructorOf enum case) := by
  refine Appends.get.bind fun m => ?_
  split
  · exact (appends_ofEnums _).bind fun c => .pure _
  · exact .pure _

theorem appends_writePrint (value : Node) (text : String) : Appends (writePrint s value text) := by
  unfold writePrint
  split
  · exact .writeStatement _
  · exact Appends.get.bind fun m => .writeStatement _

theorem appends_finishStatement (n : Node) (value : Option String) :
    Appends (finishStatement n value) := by
  unfold finishStatement
  split
  · exact .writeStatement _
  · exact .pure _

theorem appends_checkTopLevel (name : String) : Appends (checkTopLevel name) := by
  refine Appends.get.bind fun m => ?_
  split
  · exact .throw _
  · exact .pure _

theorem appends_testedCase (enum case : String) (bound : Nat) :
    Appends (testedCase s enum case bound) := by
  intro m c m' h
  rw [(testedCase_eq_ok h).1]
  exact .of_lines rfl

theorem appends_writeBindings (c : CaseLayout) (owner : String) (bs : List (Variable × Variable)) :
    Appends (writeBindings s c owner bs) := by
  induction bs with
  | nil => exact .pure ()
  | cons b bs ih =>
    exact (Appends.declare b.1).bind fun _ => (Appends.writeStatement _).bind fun _ => ih

/-- The end of a body. -/
theorem appends_body {x : Lowering Unit} (hx : Appends x) (a : α) : Appends (do
    x
    leave
    write (.leave none)
    return a) :=
  hx.bind fun _ => Appends.leave.bind fun _ => (Appends.write (by simp)).bind fun _ => .pure a

mutual

theorem appends_lower (s : Settings) : ∀ n : Node, Appends (lower s n)
  | .integer n => by
    rw [lower]
    exact (appends_integerText n).bind fun _ => .pure _
  | .float _ | .string _ | .boolean _ | .name _ => by
    rw [lower]
    exact .pure _
  | .call f args => by
    rw [lower]
    exact (appends_lowerValues s args).bind fun _ => (appends_joinValues _).bind fun _ => .pure _
  | .binary a op b => by
    rw [lower]
    exact (appends_precedenceOf op).bind fun _ => (appends_lower s a).bind fun _ =>
      (appends_lower s b).bind fun _ => .pure _
  | .construct enum case args => by
    rw [lower]
    exact (appends_lowerValues s args).bind fun _ => (appends_joinValues _).bind fun _ =>
      (appends_constructorOf enum case).bind fun _ => .pure _
  | .function p body => by
    rw [lower]
    refine (appends_checkTopLevel _).bind fun _ => (Appends.write (by simp)).bind fun _ => ?_
    exact Appends.enter.bind fun _ => (Appends.forM .declare).bind fun _ =>
      appends_body (appends_lowerAll s body) none
  | .prototype p => by
    rw [lower]
    exact (Appends.writeStatement _).bind fun _ => .pure _
  | .declare v => by
    rw [lower]
    exact (Appends.declare v).bind fun _ => (Appends.writeStatement _).bind fun _ => .pure _
  | .assign v value => by
    rw [lower]
    exact (appends_lower s value).bind fun _ => (Appends.declare v).bind fun _ =>
      (Appends.writeStatement _).bind fun _ => .pure _
  | .yield value => by
    rw [lower]
    exact (appends_lower s value).bind fun _ => (Appends.writeStatement _).bind fun _ => .pure _
  | .print values => by
    rw [lower]
    exact (appends_lowerPrints s values).bind fun _ => .pure _
  | .branch condition body => by
    rw [lower]
    refine (appends_lower s condition).bind fun _ => (Appends.write (by simp)).bind fun _ => ?_
    exact Appends.enter.bind fun _ => appends_body (appends_lowerAll s body) none
  | .caseTest v case bindings body => by
    rw [lower]
    refine (appends_testedCase _ _ _).bind fun c => (Appends.write (by simp)).bind fun _ => ?_
    exact Appends.enter.bind fun _ => (appends_writeBindings c _ _).bind fun _ =>
      appends_body (appends_lowerAll s body) none
  | .enumeration _ | .program _ | .typeName _ | .enumCase _ => by
    rw [lower]
    exact .throw _

theorem appends_lowerAll (s : Settings) : ∀ ns : List Node, Appends (lowerAll s ns)
  | [] => by
    rw [lowerAll]
    exact .pure ()
  | n :: ns => by
    rw [lowerAll]
    exact (appends_lower s n).bind fun _ => (appends_finishStatement n _).bind fun _ =>
      appends_lowerAll s ns

theorem appends_lowerValues (s : Settings) : ∀ ns : List Node, Appends (lowerValues s ns)
  | [] => by
    rw [lowerValues]
    exact .pure _
  | n :: ns => by
    rw [lowerValues]
    exact (appends_lower s n).bind fun _ => (appends_lowerValues s ns).bind fun _ => .pure _

theorem appends_lowerPrints (s : Settings) : ∀ ns : List Node, Appends (lowerPrints s ns)
  | [] => by
    rw [lowerPrints]
    exact .pure ()
  | n :: ns => by
    rw [lowerPrints]
    exact (appends_lower s n).bind fun _ => (appends_writePrint n _).bind fun _ =>
      appends_lowerPrints s ns

end

theorem appends_topLevel (n : Node) : Appends (topLevel s n) := by
  have hstatement : Appends (statement s n) :=
    (appends_lower s n).bind fun _ => appends_finishStatement n _
  unfold topLevel
  split
  · exact .pure ()
  · exact hstatement.bind fun _ => .write (by simp)
  · exact hstatement

theorem appends_writeForward (nodes : List Node) : Appends (writeForward s nodes) := by
  unfold writeForward
  split
  · exact (Appends.forM fun _ => .writeStatement _).bind fun _ => .write (by simp)
  · exact .pure ()

theorem appends_writeMain (body : List Node) : Appends (writeMain s body) :=
  (Appends.write (by simp)).bind fun _ => Appends.enter.bind fun _ =>
    (appends_lowerAll s body).bind fun _ => (Appends.writeStatement _).bind fun _ =>
      Appends.leave.bind fun _ => .write (by simp)

theorem appends_writeBody (nodes : List Node) : Appends (writeBody s nodes) := by
  unfold writeBody
  split
  · refine (Appends.forM appends_topLevel).bind fun _ => ?_
    split
    · exact appends_writeMain _
    · exact .pure ()
  · exact .forM appends_topLevel

end Lowering

theorem EnumLayout.code_ne_blank {s : Settings} {l : EnumLayout} :
    ∀ k ∈ l.lines s, k.code ≠ .blank := by
  have hstruct (name : String) (members : List Code.Binder) :
      ∀ k ∈ structType name members, k.code ≠ .blank := by
    simp [structType, or_imp, forall_and]
  intro k hk
  simp only [EnumLayout.lines, List.mem_append, List.mem_flatMap] at hk
  rcases hk with ((⟨c, -, hk⟩ | hk) | hk) | ⟨c, -, hk⟩
  · exact hstruct _ _ k hk
  · rcases code_of_mem_tagLines hk with hcode | ⟨_, _, hcode⟩ | hcode <;> simp [hcode]
  · exact hstruct _ _ k hk
  · rcases code_of_mem_constructorLines hk with ⟨_, hcode⟩ | ⟨_, hcode⟩ | hcode <;> simp [hcode]

def headerLines (s : Settings) : List Line :=
  (s.dialect.includeLines ++ s.dialect.namespaceLine.toList).map fun l => ⟨0, .header l⟩

namespace CodeTree

theorem nonblank_allLines (level : Nat) (ts : List CodeTree) :
    Line.nonblank (allLines level ts) =
      Line.nonblank (allLines level (ts.filter (!·.isBlank))) := by
  induction ts with
  | nil => rfl
  | cons t ts ih =>
    rw [allLines, Line.nonblank_append, ih]
    cases ht : t.isBlank with
    | false => rw [List.filter_cons_of_pos (by simp [ht]), allLines, Line.nonblank_append]
    | true =>
      have hblank : Line.nonblank (t.lines level) = [] := by
        unfold isBlank at ht
        split at ht
        · rfl
        · simp at ht
      rw [List.filter_cons_of_neg (by simp [ht]), hblank, List.nil_append]

theorem allLines_flatMap_enumeration (s : Settings) (ls : List EnumLayout) :
    allLines 0 (ls.flatMap (enumeration s)) = ls.flatMap (EnumLayout.lines s) := by
  induction ls with
  | nil => rfl
  | cons l ls ih =>
    rw [List.flatMap_cons, allLines_append, allLines_enumeration, ih, List.flatMap_cons]

end CodeTree

open Lowering

theorem lines_forM_write {α : Type} {f : α → Code} {as : List α} {m m' : Memory} {u : Unit}
    (hrun : as.forM (fun a => write (f a)) m = .ok u m') :
    m'.lines.toList = m.lines.toList ++ as.map (fun a => ⟨m.level, f a⟩) ∧ m'.level = m.level := by
  induction as generalizing m with
  | nil =>
    obtain ⟨-, rfl⟩ := pure_eq_ok.1 hrun
    simp
  | cons a as ih =>
    have hrun : as.forM (fun a => write (f a)) (m.write (f a)) = .ok u m' := hrun
    obtain ⟨hlines, hlevel⟩ := ih hrun
    rw [hlines, hlevel]
    simp [Memory.write]

theorem lines_writeHeader {s : Settings} {m m' : Memory} {u : Unit}
    (hrun : writeHeader s m = .ok u m') (hlevel : m.level = 0) (hnil : m.lines.toList = []) :
    m'.lines.toList = headerLines s ++ [⟨0, .blank⟩] ∧ m'.level = 0 := by
  obtain ⟨_, m₁, hheader, hrest⟩ := bind_eq_ok.1 hrun
  obtain ⟨hlines, hlevel₁⟩ := lines_forM_write hheader
  have hrest : EStateM.Result.ok () (m₁.write .blank) = .ok u m' := hrest
  obtain ⟨-, rfl⟩ := EStateM.Result.ok.inj hrest
  rw [hlevel] at hlevel₁ hlines
  rw [hnil, List.nil_append] at hlines
  exact ⟨by simp [Memory.write, hlines, hlevel₁, headerLines], hlevel₁⟩

theorem nonblank_writeEnums {s : Settings} {r : Registry} {fs : List Prototype}
    {Γ : List Enclosing} {m m' : Memory} {u : Unit} (hm : m.At r fs Γ) (hlevel : m.level = 0)
    (hrun : writeEnums s m = .ok u m') :
    ∃ ls, m'.lines.toList = m.lines.toList ++ ls ∧
      Line.nonblank ls = r.enums.flatMap (EnumLayout.lines s) := by
  obtain ⟨⟨us, hextends, hus⟩, -⟩ := grows_writeEnums hrun hm hlevel
  refine ⟨CodeTree.allLines 0 us, hlevel ▸ hextends.lines, ?_⟩
  rw [CodeTree.nonblank_allLines, hus, CodeTree.allLines_flatMap_enumeration]
  refine Line.nonblank_eq_self fun k hk => ?_
  obtain ⟨l, -, hk⟩ := List.mem_flatMap.1 hk
  exact EnumLayout.code_ne_blank k hk

/-- The code of a program that is lowered, section by section. -/
theorem sections_of_generate {s : Settings} {nodes : List Node} {text : String}
    (h : generate s nodes = .ok text) :
    ∃ r body rest, Registry.ofProgram nodes = .ok r ∧
      lowerToCode s nodes = .ok (headerLines s ++ body) ∧
      text = fileText ((headerLines s ++ body).map (Line.render s.indent)) ∧
      Line.nonblank body = r.enums.flatMap (EnumLayout.lines s) ++ rest ∧
      ∀ k ∈ rest, ∀ x, k.code ≠ .enter (.structType x) := by
  unfold generate lowerToLines at h
  cases hprogram : program s nodes {} with
  | error f m' => simp [hprogram, Except.map] at h
  | ok texts m' =>
    rw [hprogram] at h
    obtain rfl : fileText texts = text := Except.ok.inj h
    have hcode : lowerToCode s nodes = .ok m'.lines.toList := by rw [lowerToCode, hprogram]
    obtain ⟨_, m₁, hread, hrest⟩ := bind_eq_ok.1 hprogram
    obtain ⟨_, m₂, hcheck, hrest⟩ := bind_eq_ok.1 hrest
    obtain ⟨_, m₃, hheader, hrest⟩ := bind_eq_ok.1 hrest
    obtain ⟨_, m₄, henums, hrest⟩ := bind_eq_ok.1 hrest
    obtain ⟨_, m₅, hforward, hrest⟩ := bind_eq_ok.1 hrest
    obtain ⟨_, m₆, hbody, hend⟩ := bind_eq_ok.1 hrest
    obtain ⟨r, hr, hat, hlevel, hnil⟩ := readProgram_eq_ok hread
    obtain rfl := checkEntryPoint_eq_ok hcheck
    obtain ⟨hlines₃, hlevel₃⟩ := lines_writeHeader hheader hlevel hnil
    obtain ⟨enums, hlines₄, henums⟩ :=
      nonblank_writeEnums (grows_writeHeader hheader hat).2 hlevel₃ henums
    obtain ⟨rest, hlines₆, hstruct⟩ := (appends_writeForward nodes _ _ _ hforward).trans
      (appends_writeBody nodes _ _ _ hbody)
    have hend : EStateM.Result.ok
        ((Line.dropBlankEnd m₆.lines.toList).toArray.toList.map (Line.render s.indent))
        { m₆ with lines := (Line.dropBlankEnd m₆.lines.toList).toArray } = .ok texts m' := hend
    obtain ⟨rfl, rfl⟩ := EStateM.Result.ok.inj hend
    have hheaderLines : ∀ k ∈ headerLines s, k.code ≠ .blank := List.forall_mem_map.2 (by simp)
    have hfinal : Line.dropBlankEnd m₆.lines.toList =
        headerLines s ++ Line.dropBlankEnd (⟨0, .blank⟩ :: (enums ++ rest)) := by
      rw [hlines₆, hlines₄, hlines₃, ← Line.dropBlankEnd_append hheaderLines]
      simp
    refine ⟨r, Line.dropBlankEnd (⟨0, .blank⟩ :: (enums ++ rest)), Line.nonblank rest, hr, ?_, ?_,
      ?_, fun k hk => ?_⟩
    · exact hcode.trans (congrArg _ hfinal)
    · simp [hfinal]
    · rw [Line.nonblank_dropBlankEnd, ← henums, ← Line.nonblank_append]
      rfl
    · exact hstruct k (List.mem_of_mem_filter hk)

end SumLang
