import SumLang.Proofs.LegibleCode
import SumLang.Proofs.StrippedLines

/-! The nesting of the written text. By its braces alone the text is read back as the tree of the
code, and every line is indented by the depth that its braces give it. -/
namespace SumLang

/-- A text as lines and blocks, without indentation. A block has the line that opens it and the line
that closes it. -/
inductive TextTree where
  | line (text : List Char)
  | block (head : List Char) (body : List TextTree) (tail : List Char)

def TextTree.isBlank : TextTree → Bool
  | line [] => true
  | _ => false

def unindented (l : List Char) : List Char := l.dropWhile isIndentation

def closesBlock (l : List Char) : Bool := (unindented l).head? == some '\x7d'

def opensBlock (l : List Char) : Bool := l.getLast? == some '\x7b'

/-- The trees of some lines, where `ts` are the trees before them in their block, and `outer` the
blocks around it, the innermost first, each by the trees before it and the line that opens it. -/
def readBlocks (outer : List (List TextTree × List Char)) (ts : List TextTree) :
    List (List Char) → Option (List TextTree)
  | [] => if outer.isEmpty then some ts else none
  | l :: ls =>
    if closesBlock l then
      match outer with
      | [] => none
      | (before, head) :: outer =>
        if opensBlock l then none
        else readBlocks outer (before ++ [.block head ts (unindented l)]) ls
    else if opensBlock l then readBlocks ((ts, unindented l) :: outer) [] ls
    else readBlocks outer (ts ++ [.line (unindented l)]) ls

/-- A line that is empty, or starts with exactly so many units of indentation. -/
def Indented (indent : List Char) (depth : Nat) (l : List Char) : Prop :=
  l ≠ [] → ∃ c cs, l = (List.replicate depth indent).flatten ++ c :: cs ∧ isIndentation c = false

/-- Lines that are indented by their depth, which grows behind each line that opens a block and
shrinks before each line that closes one, never below zero and to zero at the end. -/
def LaidOut (indent : List Char) (depth : Nat) : List (List Char) → Prop
  | [] => depth = 0
  | l :: ls =>
    if closesBlock l then
      0 < depth ∧ Indented indent (depth - 1) l ∧
        LaidOut indent (if opensBlock l then depth - 1 + 1 else depth - 1) ls
    else
      Indented indent depth l ∧ LaidOut indent (if opensBlock l then depth + 1 else depth) ls

namespace CodeTree

mutual

def text : CodeTree → TextTree
  | line code => .line code.text.toList
  | block head body defines =>
    .block (Code.enter head).text.toList (texts body) (Code.leave defines).text.toList

def texts : List CodeTree → List TextTree
  | [] => []
  | t :: ts => t.text :: texts ts

end

end CodeTree

/-- A line at a level that shows a text, which tells whether the line opens or closes a block. -/
structure Shows (indent : List Char) (level : Nat) (t l : List Char) : Prop where
  text : unindented l = t
  closes : closesBlock l = (t.head? == some '\x7d')
  opens : opensBlock l = (t.getLast? == some '\x7b')
  indented : Indented indent level l
  oneLine : '\n' ∉ l

section Indentation

variable {indent : String} {level : Nat}

theorem toList_repeated (indent : String) (n : Nat) :
    (Line.repeated indent n).toList = (List.replicate n indent.toList).flatten := by
  induction n with
  | zero => rfl
  | succ n ih =>
    rw [Line.repeated, String.toList_append, ih, List.replicate_succ, List.flatten_cons]

/-- Indentation leaves the text that it is put before as it was. -/
theorem shows_indented {indent : List Char} (hindent : ∀ c ∈ indent, isIndentation c = true)
    {t : List Char} (ht : t.head?.any (fun c => !isIndentation c) = true) (hline : '\n' ∉ t) :
    Shows indent level t ((List.replicate level indent).flatten ++ t) := by
  cases t with
  | nil => simp at ht
  | cons c cs =>
    have hc : isIndentation c = false := by simpa using ht
    have hall : ∀ c ∈ (List.replicate level indent).flatten, isIndentation c = true := by
      intro c hc
      obtain ⟨w, hw, hcw⟩ := List.mem_flatten.1 hc
      exact hindent c (List.eq_of_mem_replicate hw ▸ hcw)
    have htext : unindented ((List.replicate level indent).flatten ++ c :: cs) = c :: cs := by
      rw [unindented, List.dropWhile_append_of_pos hall, List.dropWhile_cons_of_neg (by simp [hc])]
    refine ⟨htext, by rw [closesBlock, htext], ?_, fun _ => ⟨c, cs, rfl, hc⟩, fun hmem => ?_⟩
    · rw [opensBlock, List.getLast?_append_of_ne_nil _ (by simp)]
    · rcases List.mem_append.1 hmem with hmem | hmem
      · exact absurd (hall _ hmem) (by decide)
      · exact hline hmem

theorem shows_render (hindent : ∀ c ∈ indent.toList, isIndentation c = true) {code : Code}
    (ht : code.text.toList.head?.any (fun c => !isIndentation c) = true)
    (hline : OneLine code.text) :
    Shows indent.toList level code.text.toList (Line.render indent ⟨level, code⟩).toList := by
  have hrender : (Line.render indent ⟨level, code⟩).toList =
      (List.replicate level indent.toList).flatten ++ code.text.toList := by
    cases code with
    | blank => simp [Code.text] at ht
    | _ => simp [Line.render, toList_repeated]
  rw [hrender]
  exact shows_indented hindent ht hline

end Indentation

/-- Lines that stand for some trees at a level: wherever they are read there, they add the trees to
those before them, and they leave the level as it was. -/
structure StandFor (indent : List Char) (level : Nat) (ls : List (List Char))
    (ts : List TextTree) : Prop where
  read : ∀ outer before rest,
    readBlocks outer before (ls ++ rest) = readBlocks outer (before ++ ts) rest
  laidOut : ∀ rest, LaidOut indent level (ls ++ rest) ↔ LaidOut indent level rest
  oneLine : ∀ l ∈ ls, '\n' ∉ l

namespace StandFor

variable {indent : List Char} {level : Nat}

theorem nil : StandFor indent level [] [] := ⟨by simp, by simp, by simp⟩

theorem append {ls ls' : List (List Char)} {ts ts' : List TextTree}
    (h : StandFor indent level ls ts) (h' : StandFor indent level ls' ts') :
    StandFor indent level (ls ++ ls') (ts ++ ts') where
  read outer before rest := by rw [List.append_assoc, h.read, h'.read, List.append_assoc]
  laidOut rest := by rw [List.append_assoc, h.laidOut, h'.laidOut]
  oneLine := List.forall_mem_append.2 ⟨h.oneLine, h'.oneLine⟩

theorem blank : StandFor indent level [[]] [.line []] where
  read _ _ _ := rfl
  laidOut _ := by simp [LaidOut, closesBlock, opensBlock, unindented, Indented]
  oneLine := by simp

theorem line {t l : List Char} (h : Shows indent level t l) (hclose : t.head? ≠ some '\x7d')
    (hopen : t.getLast? ≠ some '\x7b') : StandFor indent level [l] [.line t] where
  read _ _ _ := by simp [readBlocks, h.closes, h.opens, h.text, hclose, hopen]
  laidOut _ := by simp [LaidOut, h.closes, h.opens, h.indented, hclose, hopen]
  oneLine := List.forall_mem_singleton.2 h.oneLine

theorem block {t u l k : List Char} {ls : List (List Char)} {ts : List TextTree}
    (hl : Shows indent level t l) (hclose : t.head? ≠ some '\x7d')
    (hopen : t.getLast? = some '\x7b') (h : StandFor indent (level + 1) ls ts)
    (hk : Shows indent level u k) (hclose' : u.head? = some '\x7d')
    (hopen' : u.getLast? ≠ some '\x7b') :
    StandFor indent level (l :: ls ++ [k]) [.block t ts u] where
  read outer before rest := by
    have hhead : readBlocks outer before (l :: (ls ++ ([k] ++ rest))) =
        readBlocks ((before, t) :: outer) [] (ls ++ ([k] ++ rest)) := by
      simp [readBlocks, hl.closes, hl.opens, hl.text, hclose, hopen]
    have htail : readBlocks ((before, t) :: outer) ts (k :: rest) =
        readBlocks outer (before ++ [.block t ts u]) rest := by
      simp [readBlocks, hk.closes, hk.opens, hk.text, hclose', hopen']
    rw [List.append_assoc, List.cons_append, hhead, h.read]
    exact htail
  laidOut rest := by
    have hhead : LaidOut indent level (l :: (ls ++ ([k] ++ rest))) ↔
        LaidOut indent (level + 1) (ls ++ ([k] ++ rest)) := by
      simp [LaidOut, hl.closes, hl.opens, hl.indented, hclose, hopen]
    have htail : LaidOut indent (level + 1) (k :: rest) ↔ LaidOut indent level rest := by
      simp [LaidOut, hk.closes, hk.opens, hk.indented, hclose', hopen']
    rw [List.append_assoc, List.cons_append, hhead, h.laidOut]
    exact htail
  oneLine := by
    refine List.forall_mem_append.2 ⟨List.forall_mem_cons.2 ⟨hl.oneLine, h.oneLine⟩, ?_⟩
    exact List.forall_mem_singleton.2 hk.oneLine

end StandFor

section Code

variable {indent : String}

theorem StartsLine.head? {t : String} (h : StartsLine t) :
    t.toList.head?.any (fun c => !isIndentation c) = true ∧ t.toList.head? ≠ some '\x7d' := by
  have hfirst := h.first
  cases hlist : t.toList with
  | nil => simp [hlist] at hfirst
  | cons c cs =>
    rw [hlist] at hfirst
    simpa using hfirst

theorem standFor_allLines {ts : List CodeTree} {level : Nat}
    (h : ∀ t ∈ ts, StandFor indent.toList level
      ((t.lines level).map fun l => (l.render indent).toList) [t.text]) :
    StandFor indent.toList level
      ((CodeTree.allLines level ts).map fun l => (l.render indent).toList) (CodeTree.texts ts) := by
  induction ts with
  | nil => exact .nil
  | cons t ts ih =>
    obtain ⟨ht, hts⟩ := List.forall_mem_cons.1 h
    rw [CodeTree.allLines, List.map_append]
    exact ht.append (ih hts)

theorem leave_text {defines : Option String} (h : ∀ name ∈ defines, OneLine name) :
    OneLine (Code.leave defines).text ∧ (Code.leave defines).text.toList.head? = some '\x7d' ∧
      (Code.leave defines).text.toList.getLast? ≠ some '\x7b' := by
  cases defines with
  | none => decide
  | some name =>
    have hname : OneLine name := h name rfl
    refine ⟨?_, by simp [Code.text], ?_⟩
    · exact ((by decide : OneLine "\x7d ").append hname).append (by decide)
    · rw [Code.text, getLast?_append_of_eq_some _ (c := ';') (by decide)]
      decide

/-- The lines of legible code stand for its text. -/
theorem CodeTree.Legible.standFor (hindent : ∀ c ∈ indent.toList, isIndentation c = true)
    {t : CodeTree} (h : t.Legible) (level : Nat) :
    StandFor indent.toList level ((t.lines level).map fun l => (l.render indent).toList)
      [t.text] := by
  induction h generalizing level with
  | blank => exact .blank
  | line hstart hopen =>
    obtain ⟨hshown, hclose⟩ := hstart.head?
    exact .line (shows_render hindent hshown hstart.oneLine) hclose hopen
  | @block head body defines hstart _ hdefines ih =>
    have hhead : StartsLine (Code.enter head).text := hstart.append (by decide)
    obtain ⟨hshown, hclose⟩ := hhead.head?
    have hopen : (Code.enter head).text.toList.getLast? = some '\x7b' :=
      getLast?_append_of_eq_some _ (by decide)
    obtain ⟨hline, hclose', hopen'⟩ := leave_text hdefines
    have hbody := standFor_allLines fun t ht => ih t ht (level + 1)
    have htail : Shows indent.toList level (Code.leave defines).text.toList _ :=
      shows_render hindent (by rw [hclose']; decide) hline
    rw [lines, List.map_append, List.map_cons]
    exact .block (shows_render hindent hshown hhead.oneLine) hclose hopen hbody htail hclose' hopen'

end Code

section File

theorem splitLines_fileText {lines : List String} (hne : lines ≠ []) (h : ∀ l ∈ lines, OneLine l) :
    Text.splitLines (fileText lines).toList = lines.map String.toList ++ [[]] := by
  induction lines with
  | nil => exact absurd rfl hne
  | cons l ls ih =>
    obtain ⟨hl, hls⟩ := List.forall_mem_cons.1 h
    cases ls with
    | nil =>
      rw [fileText, String.intercalate_singleton, String.toList_append]
      exact Text.splitLines_append hl []
    | cons k ks =>
      have htext : (fileText (l :: k :: ks)).toList =
          l.toList ++ '\n' :: (fileText (k :: ks)).toList := by
        simp [fileText, String.intercalate_cons_of_ne_nil]
      rw [htext, Text.splitLines_append hl, ih (by simp) hls]
      rfl

theorem CodeTree.Legible.isBlank_text {t : CodeTree} (h : t.Legible) :
    t.text.isBlank = t.isBlank := by
  cases h with
  | blank => rfl
  | @line code hstart _ =>
    have hfirst := hstart.first
    have htext : (TextTree.line code.text.toList).isBlank = false := by
      cases hlist : code.text.toList with
      | nil => simp [hlist] at hfirst
      | cons => rfl
    have hcode : (CodeTree.line code).isBlank = false := by
      cases code with
      | blank => simp [Code.text] at hfirst
      | _ => rfl
    rw [CodeTree.text, htext, hcode]
  | block => rfl

theorem texts_filter {ts : List CodeTree} (h : ∀ t ∈ ts, t.Legible) :
    (CodeTree.texts ts).filter (!·.isBlank) = CodeTree.texts (ts.filter (!·.isBlank)) := by
  induction ts with
  | nil => rfl
  | cons t ts ih =>
    obtain ⟨ht, hts⟩ := List.forall_mem_cons.1 h
    rw [CodeTree.texts, List.filter_cons, List.filter_cons, ht.isBlank_text, ih hts]
    split <;> rfl

theorem legible_of_filter {ts : List CodeTree}
    (h : ∀ t ∈ ts.filter (!·.isBlank), t.Legible) : ∀ t ∈ ts, t.Legible := by
  intro t ht
  cases hblank : t.isBlank with
  | false => exact h t (List.mem_filter.2 ⟨ht, by simp [hblank]⟩)
  | true =>
    unfold CodeTree.isBlank at hblank
    split at hblank
    · exact .blank
    · exact nomatch hblank

theorem allLines_ne_nil {s : Settings} {r : Registry} {nodes : List Node} {ts us : List CodeTree}
    (h : us.filter (!·.isBlank) = CodeTree.preamble s r nodes ++ ts) :
    CodeTree.allLines 0 us ≠ [] := by
  cases us with
  | nil =>
    have hinclude : s.dialect.includeLines ≠ [] := by
      cases s.dialect <;> decide
    simp [CodeTree.preamble, hinclude] at h
  | cons t us => cases t <;> simp [CodeTree.allLines, CodeTree.lines]

/-- The lines of the written text are those of its code, which is legible. -/
theorem splitLines_of_generate {nodes : List Node} (hwell : ∀ n ∈ nodes, WellFormed.Statement n)
    {s : Settings} (hindent : ∀ c ∈ s.indent.toList, isIndentation c = true) {text : String}
    (h : generate s nodes = .ok text) :
    ∃ r ts us, Registry.ofProgram nodes = .ok r ∧ LaysProgram s r nodes ts ∧
      us.filter (!·.isBlank) = CodeTree.preamble s r nodes ++ ts ∧ (∀ t ∈ us, t.Legible) ∧
      lowerToCode s nodes = .ok (CodeTree.allLines 0 us) ∧
      Text.splitLines text.toList =
        (CodeTree.allLines 0 us).map (fun l => (l.render s.indent).toList) ++ [[]] := by
  obtain ⟨r, ts, us, hr, hts, hus, hcode, rfl⟩ := layout_of_generate hwell h
  have hworded := worded_of_ofProgram hwell hr
  have hlegible : ∀ t ∈ us, t.Legible := by
    refine legible_of_filter ?_
    rw [hus]
    exact List.forall_mem_append.2
      ⟨CodeTree.legible_preamble hworded hwell, hts.legible hworded hwell⟩
  have hstand := standFor_allLines fun t ht => (hlegible t ht).standFor hindent 0
  refine ⟨r, ts, us, hr, hts, hus, hlegible, hcode, ?_⟩
  rw [splitLines_fileText (by simpa using allLines_ne_nil hus)
    (by simpa [OneLine] using hstand.oneLine), List.map_map]
  rfl

end File

/-- The written text is nested as its program is: every line is indented by its depth, and by its
braces the text is read as the blocks and lines of the functions and statements, in their order. -/
theorem generate_nesting (source : String) (nodes : List Node)
    (hsource : parseSource source = .ok nodes) (s : Settings)
    (hindent : ∀ c ∈ s.indent.toList, c = ' ' ∨ c = '\t') (text : String)
    (h : generate s nodes = .ok text) :
    LaidOut s.indent.toList 0 (Text.splitLines text.toList) ∧
      ∃ r ts forest, Registry.ofProgram nodes = .ok r ∧ LaysProgram s r nodes ts ∧
        readBlocks [] [] (Text.splitLines text.toList) = some forest ∧
        forest.filter (!·.isBlank) = CodeTree.texts (CodeTree.preamble s r nodes ++ ts) := by
  have hwell := WellFormed.of_parseSource hsource
  have hindentation : ∀ c ∈ s.indent.toList, isIndentation c = true := fun c hc => by
    simpa [isIndentation] using hindent c hc
  obtain ⟨r, ts, us, hr, hts, hus, hlegible, -, hlines⟩ :=
    splitLines_of_generate hwell hindentation h
  have hstand := standFor_allLines fun t ht => (hlegible t ht).standFor hindentation 0
  rw [hlines]
  have hfile := hstand.append .blank
  refine ⟨?_, r, ts, CodeTree.texts us ++ [.line []], hr, hts, ?_, ?_⟩
  · rw [← List.append_nil (_ ++ _), hfile.laidOut]
    rfl
  · rw [← List.append_nil (_ ++ _), hfile.read]
    rfl
  · rw [List.filter_append, texts_filter hlegible, hus]
    exact List.append_nil _

/-- Braces and a line end in a literal, three blocks deep. -/
theorem generate_nesting_literal :
    ∃ nodes lines, parseSource ("enum E \x7b case a(n: Int); \x7d func f(x: E) -> Void \x7b " ++
        "if true \x7b if let x: E = .a(m: Int) \x7b print(\"\x7d\\n\x7b\"); \x7d \x7d \x7d") =
          .ok nodes ∧ lowerToLines { indent := "\t" } nodes = .ok lines ∧
      "\t\t\tprintf(\"%s\\n\", \"\x7d\\n\x7b\");" ∈ lines ∧
      LaidOut "\t".toList 0 (Text.splitLines (fileText lines).toList) := by
  obtain ⟨nodes, hparse, lines, hlines, hline⟩ : ∃ nodes,
      parseSource ("enum E \x7b case a(n: Int); \x7d func f(x: E) -> Void \x7b " ++
        "if true \x7b if let x: E = .a(m: Int) \x7b print(\"\x7d\\n\x7b\"); \x7d \x7d \x7d") =
          .ok nodes ∧ ∃ lines, lowerToLines { indent := "\t" } nodes = .ok lines ∧
      "\t\t\tprintf(\"%s\\n\", \"\x7d\\n\x7b\");" ∈ lines :=
    ⟨[.enumeration ⟨"E", [⟨"E", "a", [⟨.immutable, "Int", "n"⟩]⟩]⟩,
      .function ⟨"f", [⟨.immutable, "E", "x"⟩], "Void"⟩
        [.branch (.boolean true) [.caseTest ⟨.immutable, "E", "x"⟩ "a"
          [⟨.immutable, "Int", "m"⟩] [.print [.string "\x7d\n\x7b"]]]]],
      by decide +kernel, _, rfl, by decide +kernel⟩
  have htext : generate { indent := "\t" } nodes = .ok (fileText lines) := by
    rw [generate, hlines]
    rfl
  obtain ⟨hlaidOut, -⟩ := generate_nesting _ nodes hparse { indent := "\t" } (by simp) _ htext
  exact ⟨nodes, lines, hparse, hlines, hline, hlaidOut⟩

end SumLang
