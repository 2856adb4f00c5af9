import SumLang.Proofs.CodeSections
import SumLang.Proofs.CommandRuns
import SumLang.Proofs.StrippedLines

/-! Which runs write over their input. Where no output path is given, the code goes to the input
path with the extension of the target in place of its own. That is the input itself if it already
has this extension, and then it is lost: compiled code is never a source text. -/
namespace SumLang

def Found.next (d : Disk) (piece : String) : Found → Found
  | .directory place => d.follow place [piece]
  | .file _ _ => .blocked
  | .vacant _ => .missing
  | .missing => .missing
  | .blocked => .blocked

namespace Disk

variable {d : Disk} {start dir place : Place}

theorem follow_concat (d : Disk) (start : Place) (pieces : List String) (piece : String) :
    d.follow start (pieces ++ [piece]) = (d.follow start pieces).next d piece := by
  fun_induction follow d start pieces with
  | case1 => rfl
  | case2 place first rest hskip ih =>
    rw [List.cons_append, follow, if_pos hskip]
    exact ih
  | case3 place rest hskip ih =>
    rw [List.cons_append, follow, if_neg hskip, if_pos rfl]
    exact ih
  | case4 place first rest hskip hup next hentry ih =>
    rw [List.cons_append, follow, if_neg hskip, if_neg hup]
    dsimp only
    rw [show d.entry? (place ++ [first]) = _ from hentry]
    exact ih
  | case5 place first rest hskip hup _ _ hentry | case6 place first rest hskip hup _ _ hentry =>
    rw [List.cons_append, follow, if_neg hskip, if_neg hup]
    dsimp only
    rw [show d.entry? (place ++ [first]) = _ from hentry]
    simp [Found.next]
  | case7 place first rest hskip hup _ hentry | case8 place first rest hskip hup _ hentry =>
    rw [List.cons_append, follow, if_neg hskip, if_neg hup]
    dsimp only
    rw [show d.entry? (place ++ [first]) = _ from hentry]
    simp [Found.next]

/-- A name leads to the place of that name, if to any. -/
theorem place_of_follow_name {name : String} (hname : Path.IsName name) (hup : name ≠ "..") :
    (∀ bytes, d.follow dir [name] = .file place bytes → place = dir ++ [name]) ∧
      (d.follow dir [name] = .vacant place → place = dir ++ [name]) := by
  have hskip : ¬ (decide (name = "") || decide (name = ".")) = true := by
    simp [hname.nonempty, hname.proper]
  rw [follow, if_neg hskip, if_neg hup]
  dsimp only
  cases d.entry? (dir ++ [name]) with
  | none => simp [eq_comm]
  | some e => cases e <;> simp [follow, eq_comm]

theorem find_of_opening {refusals : Refusals} {path : String}
    (h : d.opening refusals path = .opened place) :
    (∃ bytes, d.find path = .file place bytes) ∨ d.find path = .vacant place := by
  unfold opening at h
  cases hfind : d.find path with
  | file found _ | vacant found =>
    rw [hfind] at h
    dsimp only at h
    cases hrefusal : refusals.lookup found with
    | none =>
      rw [hrefusal] at h
      cases h
      simp
    | some refusal =>
      rw [hrefusal] at h
      cases refusal <;> cases h
  | directory _ | missing | blocked =>
    rw [hfind] at h
    cases h

/-- Where a file and the same path with another extension lead to. -/
theorem place_withExtension_eq_iff {refusals : Refusals} {p : Path} (hp : p.Normal)
    {bytes : List UInt8} (hfile : d.find p.toText = .file place bytes) {extension : String}
    (hextension : Path.IsExtension extension) {target : Place}
    (hopen : d.opening refusals (p.withExtension extension).toText = .opened target) :
    target = place ↔ ∃ base, base ≠ "" ∧ p.parts.getLast? = some (base ++ extension) := by
  have hnormal : (p.withExtension extension).Normal :=
    Path.normal_withExtension hp hextension.undivided hextension.two_le_length
  rw [find_toText hp] at hfile
  rcases List.eq_nil_or_concat' p.parts with hnil | ⟨init, name, hparts⟩
  · rw [hnil] at hfile
    cases hfile
  have hname : Path.IsName name := hp.names name (by simp [hparts])
  have hwith : p.withExtension extension = ⟨p.root, init ++ [Path.stem name ++ extension]⟩ := by
    simp [Path.withExtension, hparts]
  have hstem : Path.IsName (Path.stem name ++ extension) :=
    Path.isName_stem_append hname hextension.undivided hextension.two_le_length
  -- The directories on the way are the same, so the last names tell the places apart.
  rw [hparts, follow_concat] at hfile
  obtain ⟨dir, hdir⟩ :
      ∃ dir, d.follow (if p.root = "" then [] else ["/"]) init = .directory dir := by
    cases hinit : d.follow (if p.root = "" then [] else ["/"]) init with
    | directory dir => exact ⟨dir, rfl⟩
    | file _ _ | vacant _ | missing | blocked =>
      rw [hinit] at hfile
      cases hfile
  rw [hdir, Found.next] at hfile
  have hup : name ≠ ".." := by
    rintro rfl
    cases hfile
  have hplace : place = dir ++ [name] := (place_of_follow_name hname hup).1 bytes hfile
  have htarget : target = dir ++ [Path.stem name ++ extension] := by
    have hfind := find_of_opening hopen
    rw [find_toText hnormal, hwith] at hfind
    dsimp only at hfind
    rw [follow_concat, hdir, Found.next] at hfind
    have hup' := hextension.append_ne_parent (Path.stem name)
    rcases hfind with ⟨bytes', hfind⟩ | hfind
    · exact (place_of_follow_name hstem hup').1 bytes' hfind
    · exact (place_of_follow_name hstem hup').2 hfind
  rw [hplace, htarget, hparts, List.getLast?_concat]
  simp only [List.append_cancel_left_eq, List.cons.injEq, and_true, Option.some.injEq]
  exact Path.stem_append_eq_iff hextension

end Disk

section Code

/-- Code starts with the mark of its header. -/
theorem head?_generate {s : Settings} {nodes : List Node} {text : String}
    (h : generate s nodes = .ok text) : text.toList.head? = some '#' := by
  obtain ⟨r, body, rest, -, -, rfl, -⟩ := sections_of_generate h
  obtain ⟨line, lines, hheader, hline⟩ : ∃ line lines,
      (headerLines s).map (Line.render s.indent) = line :: lines ∧
        line.toList.head? = some '#' := by
    unfold headerLines
    cases s.dialect <;> exact ⟨_, _, rfl, by simp [Line.render, Line.repeated, Code.text]⟩
  rw [List.map_append, hheader, List.cons_append, fileText, String.toList_append,
    String.toList_intercalate, List.map_cons]
  cases lines ++ body.map (Line.render s.indent) <;> simp [hline]

theorem head?_compileText {o : Options} {source code : String}
    (h : compileText o source = .ok code) : code.toList.head? = some '#' := by
  rw [compileText_eq] at h
  obtain ⟨nodes, -, hcode⟩ := bind_eq_ok_iff.1 h
  cases hgenerate : generate o.toSettings nodes with
  | error f =>
    rw [hgenerate] at hcode
    cases hcode
  | ok text =>
    rw [hgenerate] at hcode
    cases hcode
    exact head?_generate hgenerate

/-- No lexeme starts with that mark. -/
theorem tokenize_of_head? {text : String} (h : text.toList.head? = some '#') :
    Token.tokenize text = .error (.invalidCharacter '#' 0) := by
  obtain ⟨cs, hcs⟩ := List.head?_eq_some_iff.1 h
  rw [Token.tokenize_eq_error, Token.scan, hcs, Token.scanFrom]
  rfl

theorem head?_strip {source : String} (h : source.toList.head? = some '#') :
    (Comment.strip source).toList.head? = some '#' := by
  obtain ⟨cs, hcs⟩ := List.head?_eq_some_iff.1 h
  obtain ⟨line, rest, rfl, hnl, hrest, -⟩ := Comment.exists_line cs
  have hstrip : (Comment.strip source).toList =
      Comment.stripLine ('#' :: line) ++ Comment.stripText rest := by
    rw [← Comment.stripText_append (by simp [hnl]) hrest, List.cons_append, ← hcs, Comment.strip,
      String.toList_ofList]
    rfl
  have hline : (Comment.stripLine ('#' :: line)).head? = some '#' := by
    unfold Comment.stripLine
    rw [Comment.before_cons (by decide) (by simp)]
    cases Comment.before false line with
    | none => rfl
    | some code =>
      have htrim := Text.trimEnd_append (c := '#') (by decide) [] code
      exact congrArg List.head? htrim
  rw [hstrip, List.head?_append, hline]
  rfl

theorem head?_unifyLineEnds {cs : List Char} (h : cs.head? = some '#') :
    (Text.unifyLineEnds cs).head? = some '#' := by
  obtain ⟨cs, rfl⟩ := List.head?_eq_some_iff.1 h
  rfl

/-- What is read from a file is never what it is compiled to. -/
theorem encodeUtf8_compileText_ne {o : Options} {cs : List Char} {code : String}
    (h : compileText o (String.ofList (Text.unifyLineEnds cs)) = .ok code) :
    Text.encodeUtf8 code ≠ Text.encodeUtf8 (String.ofList cs) := by
  intro heq
  have hcs : code.toList = cs := by
    have hdecode : Text.decodeUtf8 (Text.encodeUtf8 code) = .ok code.toList := by
      rw [Text.decodeUtf8_eq_ok_iff, String.ofList_toList]
    rw [Text.decodeUtf8_eq_ok_iff.2 heq] at hdecode
    exact (Except.ok.inj hdecode).symm
  have hsource : (String.ofList (Text.unifyLineEnds cs)).toList.head? = some '#' := by
    rw [String.toList_ofList]
    exact head?_unifyLineEnds (hcs ▸ head?_compileText h)
  have hprepare : (o.prepare (String.ofList (Text.unifyLineEnds cs))).toList.head? = some '#' := by
    unfold Options.prepare
    split
    · exact head?_strip hsource
    · exact hsource
  have herror := CommandLine.compileText_eq_error_iff.2 ⟨_, .scanning (tokenize_of_head? hprepare)⟩
  rw [h] at herror
  cases herror

end Code

namespace CommandLine

/-- The target of a run: the one that the arguments name, or else that of the environment. -/
def Arguments.dialect (a : Arguments) (env : Environment) : Dialect :=
  ((a.value? .target).bind target?).getD (Options.ofEnvironment env).dialect

/-- Arguments that ask to compile a file whose name already ends as that of the output would. -/
structure AimsAtInput (env : Environment) (a : Arguments) (path : String) : Prop where
  working : a.shown? = none
  task : a.task = .compile
  name : ∃ base, base ≠ "" ∧
    (Path.ofString path).parts.getLast? = some (base ++ (a.dialect env).extension)

section Runs

variable {env : Environment} {d : Disk} {args : List String} {refusals : Refusals} {a : Arguments}
  {r : Request}

theorem Accepts.dialect_options (h : Accepts d args r) :
    (r.options env).dialect = r.arguments.dialect env := by
  rw [Arguments.dialect, ← (map_some_eq_map_iff.1 h.dialect).2]
  rfl

/-- Without an output path, the code is written where the input is exactly if the input has the
extension of the target. -/
theorem Accepts.opened_eq_iff (h : Accepts d args r) (houtput : r.arguments.value? .output = none)
    {place target : Place} {bytes : List UInt8} (hfile : d.find r.input = .file place bytes)
    (hopen : d.opening refusals (r.destination env) = .opened target) :
    target = place ↔ ∃ base, base ≠ "" ∧ (Path.ofString r.input).parts.getLast? =
      some (base ++ (r.arguments.dialect env).extension) := by
  have hdestination : r.destination env =
      ((Path.ofString r.input).withExtension (r.arguments.dialect env).extension).toText := by
    unfold Request.destination Request.outputPath
    rw [h.output, houtput, h.dialect_options]
    rfl
  rw [hdestination] at hopen
  exact Disk.place_withExtension_eq_iff (Path.normal_ofString r.input)
    (Disk.find_ofString_of_file hfile) (Path.isExtension_extension _) hopen

/-- Once the code is written, the input is what it was exactly if it has another extension. -/
theorem Accepts.entry?_written_iff (h : Accepts d args r)
    (houtput : r.arguments.value? .output = none) {place target : Place} {bytes : List UInt8}
    {source code : String} (hfile : d.find r.input = .file place bytes) (hsource : r.Reads d source)
    (hcode : compileText (r.options env) source = .ok code)
    (hopen : d.opening refusals (r.destination env) = .opened target) :
    Disk.entry? (d.put target (.file (Text.encodeUtf8 code))) place = some (.file bytes) ↔
      ¬ ∃ base, base ≠ "" ∧ (Path.ofString r.input).parts.getLast? =
        some (base ++ (r.arguments.dialect env).extension) := by
  rw [Disk.entry?_put (Disk.entry?_of_opening hopen), ← h.opened_eq_iff houtput hfile hopen]
  by_cases htarget : place = target
  · obtain ⟨place', cs, hfile', rfl⟩ := hsource
    obtain ⟨-, hbytes⟩ := Found.file.inj ((Disk.find_ofString_of_file hfile).symm.trans hfile')
    have hlost : Text.encodeUtf8 code ≠ bytes := hbytes ▸ encodeUtf8_compileText_ne hcode
    rw [if_pos htarget]
    simp [hlost, htarget]
  · rw [if_neg htarget]
    exact iff_of_true (Disk.entry?_of_find_file hfile) (Ne.symm htarget)

/-- Arguments that ask for a compilation are valid if the run goes through. -/
theorem exists_accepts_of_exitCode_eq_zero (hread : Arguments.read {} args = .ok a)
    (hworking : a.shown? = none) (h : (run env d args refusals).exitCode = 0) :
    ∃ r, Accepts d args r := by
  cases hcheck : check d a with
  | ok r => exact ⟨r, (check_eq_ok_iff_accepts hread hworking).1 hcheck⟩
  | error f =>
    have hrejects : interpret d args = .rejects f.render := by
      unfold interpret
      rw [hread]
      dsimp only
      rw [hworking]
      dsimp only
      rw [hcheck]
    rw [run_of_rejects hrejects] at h
    cases h

/-- A run without an output path leaves its input as it was, unless it goes through and aims at the
input. Then the input is lost. -/
theorem input_kept_iff (env : Environment) (d : Disk) (args : List String) (refusals : Refusals)
    {a : Arguments} {path : String} {place : Place} {bytes : List UInt8}
    (hread : Arguments.read {} args = .ok a) (houtput : a.value? .output = none)
    (hpath : a.operands.head? = some path) (hfile : d.find path = .file place bytes) :
    Disk.entry? (run env d args refusals).disk place = some (.file bytes) ↔
      ¬ ((run env d args refusals).exitCode = 0 ∧ AimsAtInput env a path) := by
  by_cases hwrites : (run env d args refusals).exitCode = 0 ∧ a.shown? = none ∧ a.task = .compile
  · obtain ⟨hexit, hworking, htask⟩ := hwrites
    obtain ⟨r, hr⟩ := exists_accepts_of_exitCode_eq_zero hread hworking hexit
    obtain rfl : a = r.arguments := Except.ok.inj (hread.symm.trans hr.read)
    obtain rfl : r.input = path := by
      rw [hr.operands, List.head?_cons, Option.some_inj] at hpath
      exact hpath
    obtain ⟨path, code, target, hcompiles, hopen, hdisk⟩ :=
      exists_written_of_exitCode_eq_zero (interpret_eq_asks_iff.2 hr) htask hexit
    obtain ⟨r', source, hr', -, rfl, hsource, hcode⟩ := compiles_iff.1 hcompiles
    obtain rfl : r = r' := Reading.asks.inj ((interpret_eq_asks_iff.2 hr).symm.trans hr')
    rw [hdisk, hr.entry?_written_iff houtput hfile hsource hcode hopen]
    exact not_congr ⟨fun hname => ⟨hexit, hworking, htask, hname⟩, fun h => h.2.name⟩
  · have hdisk : (run env d args refusals).disk = d := by
      by_cases hexit : (run env d args refusals).exitCode = 0
      · refine (confined_run interpret env d args refusals {}).inspected fun r hr htask => ?_
        have haccepts := interpret_eq_asks_iff.1 hr
        obtain rfl : a = r.arguments := Except.ok.inj (hread.symm.trans haccepts.read)
        exact hwrites ⟨hexit, haccepts.working, htask⟩
      · exact disk_run_eq_of_exitCode_ne ⟨rfl, rfl, rfl⟩ hexit
    rw [hdisk]
    exact iff_of_true (Disk.entry?_of_find_file hfile) fun h =>
      hwrites ⟨h.1, h.2.working, h.2.task⟩

/-- A source text in a file with the extension of the other target stays. -/
theorem input_kept_other_target :
    (run [] ⟨[(["a.c"], .file (Text.encodeUtf8 "print(1);"))]⟩ ["-t", "cpp", "a.c"] []).exitCode =
        0 ∧
      Disk.entry? (run [] ⟨[(["a.c"], .file (Text.encodeUtf8 "print(1);"))]⟩
        ["-t", "cpp", "a.c"] []).disk ["a.c"] = some (.file (Text.encodeUtf8 "print(1);")) := by
  have hread : Arguments.read {} ["-t", "cpp", "a.c"] =
      .ok { values := [(.target, "cpp")], operands := ["a.c"] } := by decide +kernel
  refine ⟨by decide +kernel, ?_⟩
  refine (input_kept_iff [] _ ["-t", "cpp", "a.c"] [] hread rfl rfl (by decide +kernel)).2 ?_
  rintro ⟨-, haims⟩
  obtain ⟨base, hbase, hname⟩ := haims.name
  have hlast : (Path.ofString "a.c").parts.getLast? = some "a.c" := by decide +kernel
  have heq := (Path.stem_append_eq_iff (Path.isExtension_extension .cpp)).2
    ⟨base, hbase, Option.some.inj (hlast.symm.trans hname)⟩
  exact absurd heq (by decide +kernel)

/-- A source text in a file with the extension of the target is written over by its own code. -/
theorem input_lost_target_extension :
    Arguments.read {} ["a.c"] = .ok { operands := ["a.c"] } ∧
      (run [] ⟨[(["a.c"], .file (Text.encodeUtf8 "print(1);"))]⟩ ["a.c"] []).exitCode = 0 ∧
      Disk.entry? (run [] ⟨[(["a.c"], .file (Text.encodeUtf8 "print(1);"))]⟩ ["a.c"] []).disk
        ["a.c"] ≠ some (.file (Text.encodeUtf8 "print(1);")) := by
  decide +kernel

end Runs

end CommandLine

end SumLang
