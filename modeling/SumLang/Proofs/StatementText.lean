import SumLang.Proofs.FilePlaces
import SumLang.Proofs.Nesting
import SumLang.Proofs.OutlineText
import SumLang.Proofs.PrintConversions

/-! The written text tells what its lines do: the conversion and the value of a printing statement
are read back from its line, and so are the statements of a constructor. -/
namespace SumLang

open Token (IsIdentifier isWordPart)

namespace Code

/-- The variable and the members that a text selects. -/
def Access.ofText (cs : List Char) : Access :=
  match Path.splitAt '.' cs with
  | [] => ⟨"", []⟩
  | root :: members => ⟨String.ofList root, members.map String.ofList⟩

/-- The conversion and the value that a line prints by conversion. -/
def readPrintf? (cs : List Char) : Option (String × String) :=
  match cs.dropPrefix? "printf(\"".toList with
  | none => none
  | some rest =>
    let conversion := String.ofList (rest.takeWhile (· != '\\'))
    match (rest.dropWhile (· != '\\')).dropPrefix? "\\n\", ".toList with
    | none => none
    | some value => some (conversion, String.ofList (value.take (value.length - 2)))

namespace Statement

/-- The statement of a constructor that a line is: it clears or returns a variable, assigns to a
member, or declares a variable. -/
def read? (cs : List Char) : Option Statement :=
  match cs.dropPrefix? "memset(&".toList with
  | some rest =>
    let name := String.ofList (rest.takeWhile isWordPart)
    if rest.dropWhile isWordPart = (", 0, sizeof(" ++ name ++ "));").toList then some (.clear name)
    else none
  | none =>
    match cs.dropPrefix? "return ".toList with
    | some value => some (.yield (String.ofList value.dropLast))
    | none =>
      let first := cs.takeWhile (· != ' ')
      let rest := cs.dropWhile (· != ' ')
      match rest.dropPrefix? " = ".toList with
      | some value => some (.assign (Access.ofText first) (String.ofList value.dropLast))
      | none =>
        let b : Binder := ⟨String.ofList first, String.ofList (rest.tail.takeWhile isWordPart)⟩
        if rest.tail.dropWhile isWordPart = [';'] then some (.declare b)
        else if rest.tail.dropWhile isWordPart = (" = " ++ b.type ++ "();").toList then
          some (.defineDefault b)
        else none

end Statement

/-- A declared variable with words for its type and its name; the type is no keyword of a
statement. -/
structure Binder.Worded (b : Binder) : Prop where
  type : ∀ c ∈ b.type.toList, isWordPart c = true
  type_ne : b.type ≠ "return"
  name : ∀ c ∈ b.name.toList, isWordPart c = true
  name_ne : b.name.toList ≠ []

section Reading

variable {w v r : List Char} {c d : Char} {x : String}

theorem dropPrefix?_append (p r : List Char) : (p ++ r).dropPrefix? p = some r :=
  List.dropPrefix?_append_of_beq r (by simp)

/-- A text of a word and something behind it starts so only with this word. -/
theorem dropPrefix?_word {t : List Char} (hw : ∀ c ∈ w, isWordPart c = true)
    (hv : ∀ c ∈ v, isWordPart c = true) (hc : isWordPart c = false) (hd : isWordPart d = false)
    (hne : v ≠ w ∨ c ≠ d) : (w ++ d :: r).dropPrefix? (v ++ c :: t) = none := by
  rw [Option.eq_none_iff_forall_ne_some]
  intro rest hrest
  obtain ⟨p, heq, hp⟩ := List.dropPrefix?_eq_some_iff.1 hrest
  obtain rfl : p = v ++ c :: t := by simpa using hp
  rw [List.append_assoc, List.cons_append] at heq
  obtain ⟨rfl, htail⟩ := eq_of_append_of_forall hw hv (forall_mem_head?_cons hd _)
    (forall_mem_head?_cons hc _) heq
  rcases hne with hne | hne
  · exact hne rfl
  · exact hne (List.cons.inj htail).1.symm

theorem readPrintf?_text {conversion : String} (h : '\\' ∉ conversion.toList) (value : String) :
    readPrintf? (Statement.printf conversion value).text.toList = some (conversion, value) := by
  have htext : (Statement.printf conversion value).text.toList = "printf(\"".toList ++
      (conversion.toList ++ '\\' :: ("n\", ".toList ++ (value.toList ++ [')', ';']))) := by
    simp [Statement.text]
  obtain ⟨htake, hdrop⟩ :=
    takeWhile_ne_append h ("n\", ".toList ++ (value.toList ++ [')', ';']))
  have hvalue : ('\\' :: ("n\", ".toList ++ (value.toList ++ [')', ';']))).dropPrefix?
      "\\n\", ".toList = some (value.toList ++ [')', ';']) := dropPrefix?_append "\\n\", ".toList _
  rw [readPrintf?, htext, dropPrefix?_append]
  dsimp only
  rw [htake, hdrop, hvalue]
  simp

namespace Statement

theorem isWordPart_memset : ∀ c ∈ "memset".toList, isWordPart c = true :=
  List.all_eq_true.1 (by decide)

theorem isWordPart_return : ∀ c ∈ "return".toList, isWordPart c = true :=
  List.all_eq_true.1 (by decide)

theorem read?_clear (hx : ∀ c ∈ x.toList, isWordPart c = true) :
    read? (clear x).text.toList = some (.clear x) := by
  have htext : (clear x).text.toList = "memset(&".toList ++
      (x.toList ++ ',' :: (" 0, sizeof(" ++ x ++ "));").toList) := by
    simp [text]
  obtain ⟨htake, hdrop⟩ := takeWhile_append_cons hx (d := ',') (by decide)
    (" 0, sizeof(" ++ x ++ "));").toList
  rw [read?, htext, dropPrefix?_append]
  dsimp only
  rw [htake, hdrop, String.ofList_toList]
  simp

theorem read?_yield (value : String) : read? (yield value).text.toList = some (.yield value) := by
  have htext : (yield value).text.toList = "return".toList ++ ' ' :: (value.toList ++ [';']) := by
    simp [text]
  have hclear : (yield value).text.toList.dropPrefix? "memset(&".toList = none := by
    rw [htext]
    exact dropPrefix?_word (v := "memset".toList) isWordPart_return isWordPart_memset (by decide)
      (by decide) (.inl (by decide))
  have hreturn : (yield value).text.toList.dropPrefix? "return ".toList =
      some (value.toList ++ [';']) := by
    rw [htext]
    exact dropPrefix?_append "return ".toList _
  rw [read?, hclear]
  dsimp only
  rw [hreturn]
  simp

/-- A line that starts with a word, which is not a `return`, and goes on with no bracket. -/
theorem read?_word (hx : ∀ c ∈ x.toList, isWordPart c = true) (hd : isWordPart d = false)
    (hbracket : d ≠ '(') (hreturn : x ≠ "return") :
    (x.toList ++ d :: r).dropPrefix? "memset(&".toList = none ∧
      (x.toList ++ d :: r).dropPrefix? "return ".toList = none := by
  constructor
  · exact dropPrefix?_word (v := "memset".toList) hx isWordPart_memset (by decide) hd
      (.inr hbracket.symm)
  · exact dropPrefix?_word (v := "return".toList) hx isWordPart_return (by decide) hd
      (.inl fun heq => hreturn (String.toList_inj.1 heq.symm))

/-- A line that declares a variable: what stands behind its name tells whether it has a value. -/
theorem read?_binder {b : Binder} (h : b.Worded) (hd : isWordPart d = false) :
    read? (b.text.toList ++ d :: r) =
      if d :: r = [';'] then some (.declare b)
      else if d :: r = (" = " ++ b.type ++ "();").toList then some (.defineDefault b)
      else none := by
  have hline : b.text.toList ++ d :: r =
      b.type.toList ++ ' ' :: (b.name.toList ++ d :: r) := by
    simp [Binder.text]
  have hblank : ' ' ∉ b.type.toList := fun hmem => absurd (h.type _ hmem) (by decide)
  obtain ⟨hclear, hyield⟩ := read?_word (r := b.name.toList ++ d :: r) h.type (d := ' ')
    (by decide) (by decide) h.type_ne
  obtain ⟨htake, hdrop⟩ := takeWhile_ne_append hblank (b.name.toList ++ d :: r)
  obtain ⟨htake', hdrop'⟩ := takeWhile_append_cons h.name hd r
  have hassign : (' ' :: (b.name.toList ++ d :: r)).dropPrefix? " = ".toList = none := by
    rw [Option.eq_none_iff_forall_ne_some]
    intro rest hrest
    obtain ⟨p, heq, hp⟩ := List.dropPrefix?_eq_some_iff.1 hrest
    obtain rfl : p = " = ".toList := by simpa using hp
    obtain ⟨c, cs, hcs⟩ := List.exists_cons_of_ne_nil h.name_ne
    rw [hcs] at heq
    obtain rfl : c = '=' := (List.cons.inj (List.cons.inj heq).2).1
    exact absurd (h.name '=' (by simp [hcs])) (by decide)
  rw [read?, hline, hclear]
  dsimp only
  rw [hyield]
  dsimp only
  rw [htake, hdrop, hassign]
  simp only [List.tail_cons, htake', hdrop', String.ofList_toList]

theorem read?_declare {b : Binder} (h : b.Worded) :
    read? (declare b).text.toList = some (.declare b) := by
  have htext : (declare b).text.toList = b.text.toList ++ ';' :: [] := by simp [text]
  rw [htext, read?_binder h (by decide), if_pos rfl]

theorem read?_defineDefault {b : Binder} (h : b.Worded) :
    read? (defineDefault b).text.toList = some (.defineDefault b) := by
  have htext : (defineDefault b).text.toList =
      b.text.toList ++ ' ' :: ("= " ++ b.type ++ "();").toList := by simp [text]
  rw [htext, read?_binder h (by decide), if_neg (by simp), if_pos (by simp)]

end Statement

structure Access.Worded (a : Access) : Prop where
  root : ∀ c ∈ a.root.toList, isWordPart c = true
  members : ∀ m ∈ a.members, ∀ c ∈ m.toList, isWordPart c = true

theorem Access.ofText_text {a : Access} (h : a.Worded) : ofText a.text.toList = a := by
  have hdot {x : String} (hx : ∀ c ∈ x.toList, isWordPart c = true) : '.' ∉ x.toList :=
    fun hmem => absurd (hx _ hmem) (by decide)
  have hparts : ∀ p ∈ a.root.toList :: a.members.map String.toList, '.' ∉ p := by
    intro p hp
    rcases List.mem_cons.1 hp with rfl | hp
    · exact hdot h.root
    · obtain ⟨m, hm, rfl⟩ := List.mem_map.1 hp
      exact hdot (h.members m hm)
  have hsplit := Path.splitAt_intercalate hparts
  have htext : a.text.toList =
      ['.'].intercalate (a.root.toList :: a.members.map String.toList) := by
    rw [Access.text, String.toList_intercalate, List.map_cons]
    rfl
  rw [ofText, htext, hsplit]
  simp [Function.comp_def]

theorem Access.Worded.blank_not_mem {a : Access} (h : a.Worded) : ' ' ∉ a.text.toList := by
  refine not_mem_intercalate (by decide) fun t ht hmem => ?_
  rcases List.mem_cons.1 ht with rfl | ht
  · exact absurd (h.root _ hmem) (by decide)
  · exact absurd (h.members t ht _ hmem) (by decide)

/-- The text of a selection is its variable, and no part of a word stands behind that. -/
theorem Access.exists_text_append (a : Access) (r : List Char) :
    ∃ d t, a.text.toList ++ ' ' :: r = a.root.toList ++ d :: t ∧ (d = '.' ∨ d = ' ') := by
  cases hmembers : a.members with
  | nil => exact ⟨' ', r, by simp [Access.text, hmembers], .inr rfl⟩
  | cons m ms =>
    refine ⟨'.', (".".intercalate (m :: ms)).toList ++ ' ' :: r, ?_, .inl rfl⟩
    rw [Access.text, hmembers, String.intercalate_cons_of_ne_nil (by simp)]
    simp

theorem Statement.read?_assign {target : Access} (h : target.Worded)
    (hreturn : target.root ≠ "return") (value : String) :
    read? (assign target value).text.toList = some (.assign target value) := by
  have htext : (assign target value).text.toList =
      target.text.toList ++ ' ' :: ("= ".toList ++ (value.toList ++ [';'])) := by
    simp [text]
  obtain ⟨d, t, hline, hd⟩ := target.exists_text_append ("= ".toList ++ (value.toList ++ [';']))
  obtain ⟨hclear, hyield⟩ := read?_word (r := t) h.root (d := d)
    (by rcases hd with rfl | rfl <;> decide) (by rcases hd with rfl | rfl <;> decide) hreturn
  obtain ⟨htake, hdrop⟩ :=
    takeWhile_ne_append h.blank_not_mem ("= ".toList ++ (value.toList ++ [';']))
  have hassign : (' ' :: ("= ".toList ++ (value.toList ++ [';']))).dropPrefix? " = ".toList =
      some (value.toList ++ [';']) := dropPrefix?_append " = ".toList _
  rw [← hline] at hclear hyield
  rw [read?, htext, hclear]
  dsimp only
  rw [hyield]
  dsimp only
  rw [htake, hdrop, hassign]
  simp [Access.ofText_text h]

end Reading

end Code

section Constructors

variable {s : Settings} {enum : String} {c : CaseLayout}

theorem ne_return_of_isIdentifier {x : String} (h : IsIdentifier x) : x ≠ "return" := by
  rintro rfl
  have hletters : ∀ d ∈ ['e', 't', 'u', 'r', 'n'], d.isAlphanum = true :=
    List.all_eq_true.1 (by decide)
  have hword := (Token.Spells.unique h (@Token.Spells.word 'r' ['e', 't', 'u', 'r', 'n']
    (by decide) fun d hd => .inl (hletters d hd))).1
  exact absurd hword (by decide)

/-- Each statement of a constructor is read back from its text. -/
theorem read?_constructorBody (henum : IsIdentifier enum) (hc : c.Worded) :
    ∀ st ∈ c.constructorBody s enum, Code.Statement.read? st.text.toList = some st := by
  have hresult : ∀ d ∈ resultLocal.toList, isWordPart d = true :=
    List.all_eq_true.1 (by decide)
  have hnamed : resultLocal.toList ≠ [] := by decide
  have hbinder : Code.Binder.Worded ⟨enum, resultLocal⟩ :=
    ⟨fun d hd => henum.isWordPart_of_mem hd, ne_return_of_isIdentifier henum, hresult, hnamed⟩
  have hplain : resultLocal ≠ "return" := by decide
  intro st hst
  simp only [CaseLayout.constructorBody, CaseLayout.resultStatements, List.mem_append,
    List.mem_map, List.mem_singleton] at hst
  rcases hst with ((hst | hst) | ⟨v, hv, rfl⟩) | rfl
  · cases hd : s.dialect <;> simp only [hd, List.mem_cons, List.not_mem_nil, or_false] at hst
    · rcases hst with rfl | rfl
      · exact Code.Statement.read?_declare hbinder
      · exact Code.Statement.read?_clear hresult
    · obtain rfl := hst
      exact Code.Statement.read?_defineDefault hbinder
  · split at hst
    · obtain rfl := List.mem_singleton.1 hst
      have htag : ∀ m ∈ [EnumLayout.tagMember], ∀ d ∈ m.toList, isWordPart d = true :=
        List.forall_mem_singleton.2 (List.all_eq_true.1 (by decide))
      exact Code.Statement.read?_assign ⟨hresult, htag⟩ hplain _
    · simp at hst
  · have hfield : ∀ d ∈ v.name.toList, isWordPart d = true :=
      fun d hd => (hc.fields v hv).name.isWordPart_of_mem hd
    refine Code.Statement.read?_assign ⟨hresult, ?_⟩ hplain _
    exact List.forall_mem_cons.2 ⟨isWordPart_lowerFirst hc.name, by simpa using hfield⟩
  · exact Code.Statement.read?_yield _

end Constructors

section Lines

variable {s : Settings} {nodes : List Node} {text : String}

theorem CodeTree.allLines_eq_flatMap (level : Nat) (ts : List CodeTree) :
    allLines level ts = ts.flatMap (CodeTree.lines level) := by
  simpa using allLines_map level id ts

/-- Without its indentation, a line of legible code is the text of the code. -/
theorem CodeTree.Legible.unindented_lines {indent : String}
    (hindent : ∀ c ∈ indent.toList, isIndentation c = true) {t : CodeTree} (h : t.Legible)
    (level : Nat) :
    ∀ l ∈ t.lines level, unindented (l.render indent).toList = l.code.text.toList := by
  induction h generalizing level with
  | blank => simp [lines, Line.render, Code.text, unindented]
  | line hstart _ =>
    intro l hl
    obtain rfl := List.mem_singleton.1 hl
    exact (shows_render hindent hstart.head?.1 hstart.oneLine).text
  | @block head body defines hstart _ hdefines ih =>
    have hhead : StartsLine (Code.enter head).text := hstart.append (by decide)
    obtain ⟨hline, hclose, -⟩ := leave_text hdefines
    intro l hl
    rw [lines, List.mem_append, List.mem_cons] at hl
    rcases hl with (rfl | hl) | hl
    · exact (shows_render hindent hhead.head?.1 hhead.oneLine).text
    · rw [allLines_eq_flatMap] at hl
      obtain ⟨t, ht, hl⟩ := List.mem_flatMap.1 hl
      exact ih t ht (level + 1) l hl
    · obtain rfl := List.mem_singleton.1 hl
      exact (shows_render hindent (by rw [hclose]; decide) hline).text

/-- The lines of the written text without their indentation are the texts of its code. -/
theorem map_unindented_of_generate (hwell : ∀ n ∈ nodes, WellFormed.Statement n)
    (hindent : ∀ c ∈ s.indent.toList, isIndentation c = true) (h : generate s nodes = .ok text) :
    ∃ r ts us, Registry.ofProgram nodes = .ok r ∧
      us.filter (!·.isBlank) = CodeTree.preamble s r nodes ++ ts ∧
      lowerToCode s nodes = .ok (CodeTree.allLines 0 us) ∧
      (Text.splitLines text.toList).map unindented =
        (CodeTree.allLines 0 us).map (fun l => l.code.text.toList) ++ [[]] := by
  obtain ⟨r, ts, us, hr, -, hus, hlegible, hcode, hlines⟩ := splitLines_of_generate hwell hindent h
  refine ⟨r, ts, us, hr, hus, hcode, ?_⟩
  rw [hlines, List.map_append, List.map_map]
  refine congrArg (· ++ [[]]) (List.map_congr_left fun l hl => ?_)
  rw [CodeTree.allLines_eq_flatMap] at hl
  obtain ⟨t, ht, hl⟩ := List.mem_flatMap.1 hl
  exact (hlegible t ht).unindented_lines hindent 0 l hl

theorem filterMap_sublist_filterMap {α β : Type} {f g : α → Option β} {as : List α}
    (h : ∀ a ∈ as, ∀ b, f a = some b → g a = some b) :
    (as.filterMap f).Sublist (as.filterMap g) := by
  induction as with
  | nil => exact .slnil
  | cons a as ih =>
    obtain ⟨ha, has⟩ := List.forall_mem_cons.1 h
    rw [List.filterMap_cons, List.filterMap_cons]
    cases hf : f a with
    | none => cases g a with
      | none => exact ih has
      | some b => exact (ih has).cons b
    | some b =>
      rw [ha b hf]
      exact (ih has).cons_cons b

theorem plain_of_printsAs {r : Registry} {fs : List Prototype}
    {printed : List (List Enclosing × Node)} {outs : List (String × String)}
    (h : List.Forall₂ (PrintsAs s r fs) printed outs) : ∀ out ∈ outs, '\\' ∉ out.1.toList := by
  refine ((List.forall₂_and_left _ _).1 (h.flip.imp fun out p hp => ⟨?_, hp⟩)).1
  obtain ⟨type?, -, hconverts⟩ := hp.typed
  generalize out.1 = conversion at hconverts
  cases hconverts <;> decide

theorem readPrintf?_of_printf? {code : Code} {out : String × String} (hplain : '\\' ∉ out.1.toList)
    (h : code.printf? = some out) : Code.readPrintf? code.text.toList = some out := by
  unfold Code.printf? at h
  split at h
  · obtain rfl := Option.some.inj h
    exact Code.readPrintf?_text hplain _
  · cases h

/-- The conversions of the printing statements stand in the written text, in their order: from the
lines of the text they are read back with the values that they print. -/
theorem printfs_sublist_text (hwell : ∀ n ∈ nodes, WellFormed.Statement n) (hs : s.dialect = .c)
    (hindent : ∀ c ∈ s.indent.toList, isIndentation c = true) (h : generate s nodes = .ok text) :
    ∃ lines, lowerToCode s nodes = .ok lines ∧ (printfs lines).Sublist
      (((Text.splitLines text.toList).map unindented).filterMap Code.readPrintf?) := by
  obtain ⟨r, ts, us, -, -, hcode, hlines⟩ := map_unindented_of_generate hwell hindent h
  obtain ⟨r', lines, -, hcode', -, hprints⟩ := printsAs_of_generate hwell hs h
  obtain rfl := Except.ok.inj (hcode.symm.trans hcode')
  refine ⟨_, hcode, ?_⟩
  rw [hlines, List.filterMap_append, List.filterMap_map]
  refine (filterMap_sublist_filterMap fun l hl out hout => ?_).trans (List.sublist_append_left _ _)
  have hplain := plain_of_printsAs hprints out (List.mem_filterMap.2 ⟨l, hl, hout⟩)
  exact readPrintf?_of_printf? hplain hout

/-- The statements of every constructor stand in the written text line by line, and are read back
from it. -/
theorem constructorBody_infix_text (hwell : ∀ n ∈ nodes, WellFormed.Statement n)
    (hindent : ∀ c ∈ s.indent.toList, isIndentation c = true) (h : generate s nodes = .ok text) :
    ∃ r, Registry.ofProgram nodes = .ok r ∧ ∀ l ∈ r.enums, ∀ c ∈ l.cases, ∃ body,
      body <:+: (Text.splitLines text.toList).map unindented ∧
        body.map Code.Statement.read? = (c.constructorBody s l.name).map some := by
  obtain ⟨r, ts, us, hr, hus, -, hlines⟩ := map_unindented_of_generate hwell hindent h
  refine ⟨r, hr, fun l hl c hc => ?_⟩
  refine ⟨(c.constructorBody s l.name).map fun st => st.text.toList, ?_, ?_⟩
  · have htree : CodeTree.constructor s l.name c ∈ us := by
      refine (List.mem_filter.1 (hus ▸ List.mem_append_left ts ?_)).1
      have hmem : CodeTree.constructor s l.name c ∈ CodeTree.enumeration s l :=
        List.mem_append_right _ (List.mem_map_of_mem hc)
      exact List.mem_append_left _ (List.mem_append_right _ (List.mem_flatMap.2 ⟨l, hl, hmem⟩))
    obtain ⟨before, after, rfl⟩ := List.append_of_mem htree
    rw [hlines, CodeTree.allLines_append, CodeTree.allLines, CodeTree.lines_constructor,
      CaseLayout.constructorLines]
    -- The head of the constructor stands before its statements, and a closing brace behind them.
    refine ⟨(CodeTree.allLines 0 before).map (fun l => l.code.text.toList) ++
      [(Code.enter (.function (c.signature s l.name))).text.toList],
      (Code.leave none).text.toList ::
        ((CodeTree.allLines 0 after).map (fun l => l.code.text.toList) ++ [[]]), ?_⟩
    simp [Function.comp_def, Code.text]
  · have hworded := worded_of_ofProgram hwell hr l hl
    rw [List.map_map]
    exact List.map_congr_left (read?_constructorBody hworded.name (hworded.cases c hc))

end Lines

end SumLang
