import SumLang.CommandLine.Run
import SumLang.Proofs.FilePlaces

/-! What a request and the environment choose: the options of a compilation, told field by field
from the flags and the variables, and the path that its code is written to. -/
namespace SumLang

namespace Path

/-- A dot and at least one letter, with no dot or slash among the letters. -/
def IsExtension (extension : String) : Prop :=
  ∃ letters, extension.toList = '.' :: letters ∧ letters ≠ [] ∧ '.' ∉ letters ∧ '/' ∉ letters

theorem isExtension_extension (d : Dialect) : IsExtension d.extension := by
  cases d with
  | c => exact ⟨['c'], by decide⟩
  | cpp => exact ⟨['c', 'p', 'p'], by decide⟩

theorem IsExtension.undivided {extension : String} (h : IsExtension extension) :
    '/' ∉ extension.toList := by
  obtain ⟨letters, hletters, -, -, hslash⟩ := h
  simp [hletters, hslash]

theorem IsExtension.two_le_length {extension : String} (h : IsExtension extension) :
    2 ≤ extension.length := by
  obtain ⟨letters, hletters, hne, -⟩ := h
  have hpos : 0 < letters.length := List.length_pos_iff.2 hne
  rw [← String.length_toList, hletters, List.length_cons]
  omega

/-- What ends in an extension does not end in a dot. -/
theorem IsExtension.append_ne_parent {extension : String} (h : IsExtension extension)
    (base : String) : base ++ extension ≠ ".." := by
  intro heq
  obtain ⟨letters, hletters, hne, hdot, -⟩ := h
  have hlast : (base ++ extension).toList.getLast? = some (letters.getLast hne) := by
    simp [hletters, List.getLast?_append, List.getLast?_cons, List.getLast?_eq_some_getLast hne]
  rw [heq] at hlast
  have hend : '.' = letters.getLast hne := Option.some.inj hlast
  exact hdot (hend ▸ List.getLast_mem hne)

theorem stem_append {base extension : String} (hbase : base ≠ "") (h : IsExtension extension) :
    stem (base ++ extension) = base := by
  obtain ⟨letters, hletters, hne, hlast, -⟩ := h
  have hname : (base ++ extension).toList = base.toList ++ '.' :: letters := by
    rw [String.toList_append, hletters]
  -- Read from the end, the letters stand before the first dot.
  have hletters' : (base ++ extension).toList.reverse.takeWhile (· != '.') = letters.reverse := by
    rw [hname, List.reverse_append, List.reverse_cons, List.append_assoc]
    exact (takeWhile_ne_append (by simpa using hlast) base.toList.reverse).1
  have hlength : (base ++ extension).toList.length = base.toList.length + 1 + letters.length := by
    rw [hname, List.length_append, List.length_cons]
    omega
  have hfront : (base ++ extension).toList.take
      ((base ++ extension).toList.length - letters.reverse.length - 1) = base.toList := by
    have hcut : (base ++ extension).toList.length - letters.reverse.length - 1 =
        base.toList.length := by
      rw [hlength, List.length_reverse]
      omega
    rw [hcut, hname, List.take_left]
  rw [stem]
  simp only [hletters', hfront]
  rw [if_neg, String.ofList_toList]
  rw [hlength]
  simp [hne, hbase]

theorem stem_ne_empty {name : String} (h : name ≠ "") : stem name ≠ "" := by
  unfold stem
  dsimp only
  split
  · exact h
  · next hproper =>
    simp only [Bool.or_eq_true, not_or] at hproper
    simpa using hproper.2

/-- The extension of a name is replaced by itself exactly if it is the one that the name has. -/
theorem stem_append_eq_iff {name extension : String} (h : IsExtension extension) :
    stem name ++ extension = name ↔ ∃ base, base ≠ "" ∧ name = base ++ extension := by
  constructor
  · intro heq
    have hname : name ≠ "" := by
      rintro rfl
      have hlength := h.two_le_length
      rw [(String.append_eq_empty_iff.1 heq).2] at hlength
      exact absurd hlength (by decide)
    exact ⟨stem name, stem_ne_empty hname, heq.symm⟩
  · rintro ⟨base, hbase, rfl⟩
    rw [stem_append hbase h]

/-- A file name, and the name with an extension in the place of the one it has, if it has one. -/
inductive Renamed (extension : String) : String → String → Prop where
  | replaced {base old : String} : base ≠ "" → IsExtension old →
      Renamed extension (base ++ old) (base ++ extension)
  | extended {name : String} : (∀ base old, base ≠ "" → IsExtension old → name ≠ base ++ old) →
      Renamed extension name (name ++ extension)

/-- A text with a character in it is cut at the last occurrence. -/
theorem exists_append_last {sep : Char} {cs : List Char}
    (h : (cs.reverse.takeWhile (· != sep)).length ≠ cs.length) :
    ∃ before, cs = before ++ sep :: (cs.reverse.takeWhile (· != sep)).reverse := by
  generalize hlast : cs.reverse.takeWhile (· != sep) = last at h
  have hsplit : last ++ cs.reverse.dropWhile (· != sep) = cs.reverse :=
    hlast ▸ List.takeWhile_append_dropWhile
  cases hrest : cs.reverse.dropWhile (· != sep) with
  | nil =>
    rw [hrest, List.append_nil] at hsplit
    rw [hsplit, List.length_reverse] at h
    exact absurd rfl h
  | cons c before =>
    obtain rfl : c = sep := by
      have hc := List.head?_dropWhile_not (· != sep) cs.reverse
      rw [hrest] at hc
      simpa using hc
    refine ⟨before.reverse, ?_⟩
    have hreverse := congrArg List.reverse hsplit
    rw [hrest, List.reverse_reverse, List.reverse_append, List.reverse_cons,
      List.append_assoc] at hreverse
    exact hreverse.symm

/-- A name is its stem, or its stem and an extension. -/
theorem stem_cases {name : String} (hslash : '/' ∉ name.toList) :
    stem name = name ∨ stem name ≠ "" ∧ ∃ old, IsExtension old ∧ name = stem name ++ old := by
  generalize hcs : name.toList = cs at hslash
  have hnodot : '.' ∉ cs.reverse.takeWhile (· != '.') := by
    intro hmem
    have hne := List.all_eq_true.1 List.all_takeWhile '.' hmem
    simp at hne
  unfold stem
  dsimp only
  rw [hcs]
  split
  · exact .inl rfl
  next hproper =>
  simp only [Bool.or_eq_true, decide_eq_true_eq, List.isEmpty_iff, not_or] at hproper
  obtain ⟨⟨hlength, hne⟩, hbase⟩ := hproper
  obtain ⟨before, hname⟩ := exists_append_last hlength
  generalize cs.reverse.takeWhile (· != '.') = letters at *
  have htake : cs.take (cs.length - letters.length - 1) = before := by
    have hcut : cs.length - letters.length - 1 = before.length := by
      rw [hname]
      simp
      omega
    rw [hcut, hname, List.take_left]
  rw [htake] at hbase ⊢
  refine .inr ⟨by simpa using hbase, String.ofList ('.' :: letters.reverse), ?_, ?_⟩
  · refine ⟨letters.reverse, String.toList_ofList, by simpa using hne, by simpa using hnodot, ?_⟩
    exact fun hmem => hslash (by simp [hname, hmem])
  · rw [← String.toList_inj, String.toList_append, String.toList_ofList, String.toList_ofList,
      hcs, hname]

theorem renamed_iff {name out extension : String} (hslash : '/' ∉ name.toList) :
    Renamed extension name out ↔ out = stem name ++ extension := by
  constructor
  · intro h
    cases h with
    | replaced hbase hold => rw [stem_append hbase hold]
    | extended hnone =>
      rcases stem_cases hslash with hstem | ⟨hbase, old, hold, hname⟩
      · rw [hstem]
      · exact absurd hname (hnone _ old hbase hold)
  · rintro rfl
    by_cases hold : ∃ base old, base ≠ "" ∧ IsExtension old ∧ name = base ++ old
    · obtain ⟨base, old, hbase, hold, rfl⟩ := hold
      rw [stem_append hbase hold]
      exact .replaced hbase hold
    · have hstem : stem name = name := by
        rcases stem_cases hslash with hstem | ⟨hbase, old, hext, hname⟩
        · exact hstem
        · exact absurd ⟨_, old, hbase, hext, hname⟩ hold
      rw [hstem]
      exact .extended fun base old hbase hext hname => hold ⟨base, old, hbase, hext, hname⟩

end Path

/-- A variable is set to a word for no, in any letter case and with blanks around it. -/
def Environment.Denies (env : Environment) (name : String) : Prop :=
  ∃ text, env.lookup name = some text ∧
    Text.lowercase (Text.trim text) ∈ ["0", "false", "no", "off"]

/-- The variable of the target is set to a name of C++. -/
def Environment.AsksCpp (env : Environment) : Prop :=
  ∃ text, env.lookup "TEDDY_TARGET" = some text ∧
    Text.trim (Text.lowercase text) ∈ ["cpp", "c++", "cxx"]

namespace CommandLine

/-- The options that the environment asks for, overridden by the flags of a request. -/
structure Request.Chooses (r : Request) (env : Environment) (o : Options) : Prop where
  dialect : o.dialect = .cpp ↔ r.dialect = some .cpp ∨ r.dialect = none ∧ env.AsksCpp
  entryPoint : o.entryPoint = false ↔
    r.arguments.has .noEntryPoint = true ∨ env.Denies "TEDDY_ENTRY_POINT"
  enumTags : o.enumTags = false ↔
    r.arguments.has .noEnumTags = true ∨ env.Denies "TEDDY_ENUM_TAGS"
  forwardDeclarations : o.forwardDeclarations = false ↔ env.Denies "TEDDY_FORWARD_DECLS"
  stripComments : o.stripComments = true
  indent : o.indent = "    "

/-- The path that is given for the output, or else that of the input with the extension of the
target. -/
inductive Request.WritesTo (r : Request) (o : Options) : Path → Prop where
  | given {path : String} : r.output = some path → WritesTo r o (Path.ofString path)
  | beside {above : List String} {name out : String} : r.output = none →
      (Path.ofString r.input).parts = above ++ [name] →
      Path.Renamed (if o.dialect = .cpp then ".cpp" else ".c") name out →
      WritesTo r o ⟨(Path.ofString r.input).root, above ++ [out]⟩

section Options

variable {env : Environment} {r : Request} {o : Options}

theorem readFlag?_eq_some_false_iff {text : String} :
    readFlag? text = some false ↔
      Text.lowercase (Text.trim text) ∈ ["0", "false", "no", "off"] := by
  unfold readFlag?
  split <;> simp_all

theorem flag_eq_false_iff (env : Environment) (name : String) :
    ((env.lookup name).bind readFlag?).getD true = false ↔ env.Denies name := by
  unfold Environment.Denies
  cases env.lookup name with
  | none => simp
  | some text =>
    simp only [Option.bind_some, Option.some.injEq, exists_eq_left', ← readFlag?_eq_some_false_iff]
    cases readFlag? text <;> simp

theorem ofName?_eq_cpp_iff {name : String} :
    Dialect.ofName? name = some .cpp ↔ Text.trim (Text.lowercase name) ∈ ["cpp", "c++", "cxx"] := by
  unfold Dialect.ofName?
  split <;> simp_all

theorem dialect_ofEnvironment (env : Environment) :
    (Options.ofEnvironment env).dialect = .cpp ↔ env.AsksCpp := by
  unfold Options.ofEnvironment Environment.AsksCpp
  cases env.lookup "TEDDY_TARGET" with
  | none => simp
  | some text =>
    simp only [Option.bind_some, Option.some.injEq, exists_eq_left', ← ofName?_eq_cpp_iff]
    cases Dialect.ofName? text <;> simp

theorem chooses_options (r : Request) (env : Environment) : r.Chooses env (r.options env) where
  dialect := by
    unfold Request.options
    cases r.dialect <;> simp [dialect_ofEnvironment]
  entryPoint := by
    rw [← flag_eq_false_iff]
    cases hflag : r.arguments.has .noEntryPoint <;>
      simp [Request.options, Options.ofEnvironment, hflag]
  enumTags := by
    rw [← flag_eq_false_iff]
    cases hflag : r.arguments.has .noEnumTags <;>
      simp [Request.options, Options.ofEnvironment, hflag]
  forwardDeclarations := flag_eq_false_iff env _
  stripComments := rfl
  indent := rfl

/-- The fields tell the options. -/
theorem Request.Chooses.unique {o' : Options} (h : r.Chooses env o) (h' : r.Chooses env o') :
    o = o' := by
  have hdialect := h.dialect.trans h'.dialect.symm
  have hentry := h.entryPoint.trans h'.entryPoint.symm
  have htags := h.enumTags.trans h'.enumTags.symm
  have hforward := h.forwardDeclarations.trans h'.forwardDeclarations.symm
  have hstrip := h.stripComments.trans h'.stripComments.symm
  have hindent := h.indent.trans h'.indent.symm
  obtain ⟨⟨dialect, _, entry, tags, forward⟩, _⟩ := o
  obtain ⟨⟨dialect', _, entry', tags', forward'⟩, _⟩ := o'
  cases dialect <;> cases dialect' <;> simp_all

theorem chooses_iff : r.Chooses env o ↔ o = r.options env :=
  ⟨fun h => h.unique (chooses_options r env), fun h => h ▸ chooses_options r env⟩

end Options

section Destination

variable {r : Request} {o : Options}

theorem extension_eq (t : Dialect) : t.extension = if t = .cpp then ".cpp" else ".c" := by
  cases t <;> rfl

/-- Every file has a name, and so a path that its code is written to. -/
theorem writesTo_iff {p : Path} (hfile : (Path.ofString r.input).parts ≠ []) :
    r.WritesTo o p ↔ p = r.outputPath o := by
  have hnormal := Path.normal_ofString r.input
  unfold Request.outputPath Request.inputPath
  cases houtput : r.output with
  | some path =>
    constructor
    · intro h
      cases h with
      | given hgiven => rw [Option.some.inj (houtput.symm.trans hgiven)]
      | beside hnone => rw [houtput] at hnone; cases hnone
    · rintro rfl
      exact .given houtput
  | none =>
    obtain ⟨above, name, hparts⟩ : ∃ above name, (Path.ofString r.input).parts = above ++ [name] :=
      ⟨_, _, (List.dropLast_concat_getLast hfile).symm⟩
    have hname : '/' ∉ name.toList := (hnormal.names name (by simp [hparts])).undivided
    have hwith : (Path.ofString r.input).withExtension o.dialect.extension =
        ⟨(Path.ofString r.input).root, above ++ [Path.stem name ++ o.dialect.extension]⟩ := by
      simp [Path.withExtension, hparts]
    dsimp only
    rw [hwith, extension_eq]
    constructor
    · intro h
      cases h with
      | given hgiven => rw [houtput] at hgiven; cases hgiven
      | @beside above' name' out _ hparts' hout =>
        obtain ⟨rfl, hlast⟩ := List.append_inj' (hparts.symm.trans hparts') rfl
        obtain rfl : name = name' := by simpa using hlast
        rw [(Path.renamed_iff hname).1 hout]
    · rintro rfl
      exact .beside houtput hparts ((Path.renamed_iff hname).2 rfl)

end Destination

end CommandLine

end SumLang
