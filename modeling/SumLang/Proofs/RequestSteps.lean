import SumLang.Proofs.EnumAdmission
import SumLang.Proofs.FaultPlaces
import SumLang.Proofs.RequestChoices
import SumLang.Proofs.Utf8Decoding

/-! The steps of a request, and what can stop it at each of them: arguments that are not valid, an
input that is no text, a stage that refuses the text, an output that cannot be opened. -/
namespace SumLang

namespace CommandLine

inductive Task where
  | strip
  | tokens
  | outline
  | compile
deriving DecidableEq, Repr

inductive Stage where
  | scanning
  | parsing
  | lowering
deriving DecidableEq, Repr

def Task.stages : Task → List Stage
  | .strip => []
  | .tokens => [.scanning]
  | .outline => [.scanning, .parsing]
  | .compile => [.scanning, .parsing, .lowering]

/-- The first inspection that is asked for, or else to compile. -/
def Arguments.task (a : Arguments) : Task :=
  if a.has .stripOnly then .strip
  else if a.has .tokens then .tokens
  else if a.has .outline then .outline
  else .compile

/-- A stage refuses a source text that the stages before it let pass. -/
inductive Refuses (o : Options) (source : String) : Stage → Fault → Prop where
  | scanning {f : LexFault} : Token.tokenize (o.prepare source) = .error f →
      Refuses o source .scanning (.source (.lexical f))
  | parsing {tokens : List Token} {f : GrammarFault} :
      Token.tokenize (o.prepare source) = .ok tokens → parse tokens = .error f →
      Refuses o source .parsing (.source (.grammatical f))
  | lowering {tokens : List Token} {nodes : List Node} {f : LoweringFault} :
      Token.tokenize (o.prepare source) = .ok tokens → parse tokens = .ok nodes →
      generate o.toSettings nodes = .error f → Refuses o source .lowering (.lowering f)

/-- The one fault of a source text that is not foreseen: an integer that is too long. -/
def Overlong (f : Fault) : Prop := ∃ n, f = .source (.lexical (.integerTooLong n))

/-- Arguments that are valid for the files there are, and the request that they make: one input,
which is a file, an output that is no directory, and a target that is known. -/
structure Accepts (d : Disk) (args : List String) (r : Request) : Prop where
  read : Arguments.read {} args = .ok r.arguments
  working : r.arguments.shown? = none
  operands : r.arguments.operands = [r.input]
  input : ∃ place bytes, d.find r.input = .file place bytes
  output : r.output = r.arguments.value? .output
  file : ∀ path place, r.output = some path → d.find path ≠ .directory place
  dialect : r.dialect.map some = (r.arguments.value? .target).map target?

/-- The text of the input: what its bytes encode, with every line end as a line feed. -/
def Request.Reads (r : Request) (d : Disk) (source : String) : Prop :=
  ∃ place cs, d.find (Path.ofString r.input).toText =
      .file place (Text.encodeUtf8 (String.ofList cs)) ∧
    source = String.ofList (Text.unifyLineEnds cs)

def Request.destination (r : Request) (env : Environment) : String :=
  (r.outputPath (r.options env)).toText

section Arguments

variable {d : Disk} {a : Arguments}

theorem mem_settings_of_value? {s : Setting} {v : String} (h : a.value? s = some v) :
    s ∈ a.settings := by
  obtain ⟨before, after, hvalues, -⟩ := List.lookup_eq_some_iff.1 h
  have hmem : (s, v) ∈ a.values.reverse := by simp [hvalues]
  rw [Arguments.settings, List.mem_eraseDups]
  exact List.mem_map.2 ⟨(s, v), List.mem_reverse.1 hmem, rfl⟩

theorem checkSetting_output {path : String} (h : a.value? .output = some path) :
    checkSetting d a .output = .ok () ↔ ∀ place, d.find path ≠ .directory place := by
  simp only [checkSetting, h]
  cases hfind : d.find path <;> simp

theorem checkSetting_target {name : String} (h : a.value? .target = some name) :
    checkSetting d a .target = .ok () ↔ (target? name).isSome = true := by
  simp only [checkSetting, h]
  cases htarget : target? name <;> simp

/-- An option without a value passes; so it does not matter which options were given one. -/
theorem forM_checkSetting_eq_ok_iff :
    a.settings.forM (checkSetting d a) = .ok () ↔
      (∀ path place, a.value? .output = some path → d.find path ≠ .directory place) ∧
        ∀ name, a.value? .target = some name → (target? name).isSome = true := by
  rw [forM_eq_ok_iff]
  constructor
  · intro h
    refine ⟨fun path place hpath => ?_, fun name hname => ?_⟩
    · exact (checkSetting_output hpath).1 (h _ (mem_settings_of_value? hpath)) place
    · exact (checkSetting_target hname).1 (h _ (mem_settings_of_value? hname))
  · rintro ⟨houtput, htarget⟩ s -
    cases hvalue : a.value? s with
    | none => cases s <;> simp only [checkSetting, hvalue]
    | some v =>
      cases s with
      | output => exact (checkSetting_output hvalue).2 fun place => houtput v place hvalue
      | target => exact (checkSetting_target hvalue).2 (htarget v hvalue)

theorem checkInput_eq_ok_iff {path : String} :
    checkInput d a = .ok path ↔
      a.operands.head? = some path ∧ ∃ place bytes, d.find path = .file place bytes := by
  rw [checkInput]
  cases a.operands with
  | nil => simp
  | cons operand operands =>
    rw [List.head?_cons, Option.some_inj]
    dsimp only
    cases hfind : d.find operand with
    | file place bytes =>
      constructor
      · intro h
        cases h
        exact ⟨rfl, place, bytes, hfind⟩
      · rintro ⟨rfl, -⟩
        rfl
    | _ =>
      refine ⟨fun h => ?_, ?_⟩
      · cases h
      · rintro ⟨rfl, place, bytes, hfile⟩
        rw [hfile] at hfind
        cases hfind

/-- A value is given through a partial function exactly if that is defined where it is used. -/
theorem map_some_eq_map_iff {α β : Type} {x : Option β} {v : Option α} {f : α → Option β} :
    x.map some = v.map f ↔ (∀ a, v = some a → (f a).isSome = true) ∧ x = v.bind f := by
  cases v with
  | none => simp
  | some a => cases hf : f a <;> cases x <;> simp [hf]

theorem check_eq_ok_iff_accepts {args : List String} {r : Request}
    (hread : Arguments.read {} args = .ok a) (hworking : a.shown? = none) :
    check d a = .ok r ↔ Accepts d args r := by
  rw [check, bind_eq_ok_iff]
  constructor
  · rintro ⟨u, hsettings, hrest⟩
    obtain ⟨houtput, htarget⟩ := forM_checkSetting_eq_ok_iff.1 hsettings
    obtain ⟨input, hinput, hrest⟩ := bind_eq_ok_iff.1 hrest
    obtain ⟨hhead, hfile⟩ := checkInput_eq_ok_iff.1 hinput
    cases hoperands : a.operands with
    | nil => simp [hoperands] at hhead
    | cons operand operands =>
      rw [hoperands, List.head?_cons, Option.some_inj] at hhead
      rw [hoperands, List.drop_one, List.tail_cons] at hrest
      cases operands with
      | cons => cases hrest
      | nil =>
        cases hrest
        refine ⟨hread, hworking, ?_, hfile, rfl, houtput, ?_⟩
        · rw [hoperands, hhead]
        · exact map_some_eq_map_iff.2 ⟨htarget, rfl⟩
  · intro h
    obtain rfl : a = r.arguments := Except.ok.inj (hread.symm.trans h.read)
    obtain ⟨htarget, hdialect⟩ := map_some_eq_map_iff.1 h.dialect
    have houtput := h.file
    rw [h.output] at houtput
    have hinput : checkInput d r.arguments = .ok r.input :=
      checkInput_eq_ok_iff.2 ⟨by rw [h.operands]; rfl, h.input⟩
    refine ⟨(), forM_checkSetting_eq_ok_iff.2 ⟨houtput, htarget⟩, ?_⟩
    refine bind_eq_ok_iff.2 ⟨r.input, hinput, ?_⟩
    rw [h.operands, ← h.output, ← hdialect]
    rfl

theorem interpret_eq_asks_iff {args : List String} {r : Request} :
    interpret d args = .asks r ↔ Accepts d args r := by
  unfold interpret
  constructor
  · intro h
    cases hread : Arguments.read {} args with
    | error f =>
      rw [hread] at h
      cases h
    | ok a =>
      rw [hread] at h
      dsimp only at h
      cases hshown : a.shown? with
      | some text =>
        rw [hshown] at h
        cases h
      | none =>
        rw [hshown] at h
        cases hcheck : check d a with
        | error f =>
          rw [hcheck] at h
          cases h
        | ok r' =>
          rw [hcheck] at h
          cases h
          exact (check_eq_ok_iff_accepts hread hshown).1 hcheck
  · intro h
    rw [h.read]
    dsimp only
    rw [h.working]
    dsimp only
    rw [(check_eq_ok_iff_accepts h.read h.working).2 h]

end Arguments

section Stages

variable {o : Options} {source : String} {stage : Stage} {f : Fault}

/-- A refusal is what a compilation fails with, and nothing else is. -/
theorem compileText_eq_error_iff :
    compileText o source = .error f ↔ ∃ stage, Refuses o source stage f := by
  constructor
  · intro h
    rcases compileText_error_cases h with
      ⟨f, htokens, rfl⟩ | ⟨tokens, f, htokens, hparse, rfl⟩ | ⟨nodes, f, hnodes, hcode, rfl⟩
    · exact ⟨_, .scanning htokens⟩
    · exact ⟨_, .parsing htokens hparse⟩
    · obtain ⟨tokens, htokens, hparse⟩ := exists_tokens_of_parseSource hnodes
      exact ⟨_, .lowering htokens hparse hcode⟩
  · rintro ⟨stage, h⟩
    rw [compileText_eq]
    cases h with
    | scanning htokens =>
      rw [parseSource_of_lexFault htokens]
      rfl
    | parsing htokens hparse =>
      rw [parseSource_of_tokenize htokens, hparse]
      rfl
    | lowering htokens hparse hcode =>
      rw [parseSource_of_tokenize htokens, hparse]
      change (generate o.toSettings _).mapError _ = _
      rw [hcode]
      rfl

theorem Refuses.isInternal_iff (h : Refuses o source stage f) :
    f.isInternal = true ↔ Overlong f := by
  rw [Overlong]
  cases h with
  | @scanning f _ => cases f <;> simp [Fault.isInternal]
  | parsing => simp [Fault.isInternal]
  | @lowering tokens nodes f htokens hparse hcode =>
    -- The other internal faults are about trees that no source has.
    have hnodes : parseSource (o.prepare source) = .ok nodes := by
      rw [parseSource_of_tokenize htokens, hparse]
      rfl
    cases located_of_generate_error hnodes hcode with
    | lowering hreported =>
      rw [LoweringFault.IsReported] at hreported
      simp [hreported]

theorem Refuses.exitCode_of_overlong (h : Refuses o source stage f) (hlong : Overlong f) :
    (Failure.ofFault f).exitCode = 3 := by
  rw [Failure.ofFault, if_pos (h.isInternal_iff.2 hlong)]
  rfl

theorem Refuses.exitCode_of_not_overlong (h : Refuses o source stage f) (hlong : ¬ Overlong f) :
    (Failure.ofFault f).exitCode = 1 := by
  rw [Failure.ofFault, if_neg (mt h.isInternal_iff.1 hlong)]
  rfl

/-- The name of a file has no part in its compilation. -/
theorem map_code_compile (o : Options) (filename source : String) :
    (SumLang.compile o filename source).map Compilation.code = compileText o source := by
  rw [compileText, SumLang.compile, SumLang.compile]
  cases Token.tokenize (o.prepare source) with
  | error f => rfl
  | ok tokens =>
    change Except.map _ ((parse tokens).mapError _ >>= _) =
      Except.map _ ((parse tokens).mapError _ >>= _)
    cases parse tokens with
    | error f => rfl
    | ok nodes =>
      change Except.map _ ((generate o.toSettings nodes).mapError _ >>= _) =
        Except.map _ ((generate o.toSettings nodes).mapError _ >>= _)
      cases generate o.toSettings nodes <;> rfl

theorem compile_of_error (filename : String) (h : compileText o source = .error f) :
    SumLang.compile o filename source = .error f := by
  rw [← map_code_compile o filename] at h
  cases hcompile : SumLang.compile o filename source with
  | error f' =>
    rw [hcompile] at h
    cases h
    rfl
  | ok c =>
    rw [hcompile] at h
    cases h

end Stages

section Inspection

variable {r : Request} {o : Options} {source : String}

/-- The messages of each task. -/
theorem inspect_eq (r : Request) (text : String) :
    r.inspect text = match r.arguments.task with
      | .strip => some (.ok [text ++ "\n"])
      | .tokens => some (match Token.tokenize text with
        | .ok tokens => .ok (tokens.map fun t => t.describe ++ "\n")
        | .error f => .error (.source (.lexical f)))
      | .outline => some (match parseSource text with
        | .ok nodes => .ok [(Node.program nodes).outline ++ "\n"]
        | .error f => .error (.source f))
      | .compile => none := by
  rw [Request.inspect, Arguments.task]
  split
  · rfl
  split
  · rfl
  split <;> rfl

/-- A task that is no compilation stops at the first refusal of its stages. -/
theorem inspect_of_refuses {stage : Stage} {f : Fault} (htask : r.arguments.task ≠ .compile)
    (hstage : stage ∈ r.arguments.task.stages) (h : Refuses o source stage f) :
    r.inspect (o.prepare source) = some (.error f) := by
  rw [inspect_eq]
  cases ht : r.arguments.task with
  | strip => simp [ht, Task.stages] at hstage
  | tokens =>
    obtain rfl : stage = .scanning := by simpa [ht, Task.stages] using hstage
    cases h with
    | scanning htokens => rw [htokens]
  | outline =>
    cases h with
    | scanning htokens => rw [parseSource_of_lexFault htokens]
    | parsing htokens hparse =>
      rw [parseSource_of_tokenize htokens, hparse]
      rfl
    | lowering => simp [ht, Task.stages] at hstage
  | compile => exact absurd ht htask

theorem inspect_of_passes (htask : r.arguments.task ≠ .compile)
    (h : ∀ stage ∈ r.arguments.task.stages, ∀ f, ¬ Refuses o source stage f) :
    ∃ messages, r.inspect (o.prepare source) = some (.ok messages) := by
  rw [inspect_eq]
  cases ht : r.arguments.task with
  | strip => exact ⟨_, rfl⟩
  | tokens =>
    cases htokens : Token.tokenize (o.prepare source) with
    | error f => exact absurd (.scanning htokens) (h .scanning (by simp [ht, Task.stages]) _)
    | ok tokens => exact ⟨_, rfl⟩
  | outline =>
    cases htokens : Token.tokenize (o.prepare source) with
    | error f => exact absurd (.scanning htokens) (h .scanning (by simp [ht, Task.stages]) _)
    | ok tokens =>
      rw [parseSource_of_tokenize htokens]
      cases hparse : parse tokens with
      | error f => exact absurd (.parsing htokens hparse) (h .parsing (by simp [ht, Task.stages]) _)
      | ok nodes => exact ⟨_, rfl⟩
  | compile => exact absurd ht htask

end Inspection

section Writing

variable {path : String}

/-- A file is written where it can be opened; a path that leads nowhere and a refused permission are
faults of the arguments, and all else is not foreseen. -/
theorem save_of_opening (d : Disk) (refusals : Refusals) (breakdown : Option Breakdown)
    (hpath : (Path.ofString path).toText = path) (text : String) :
    match d.opening refusals path with
    | .opened place => d.save refusals breakdown path text =
        (d.put place (.file (Breakdown.through breakdown (Text.encodeUtf8 text))),
          breakdown.map fun b => .broken b.reason)
    | .notFound | .denied => ∃ f, d.save refusals breakdown path text = (d, some f) ∧
        (Failure.ofWrite f).exitCode = 2
    | .unforeseen => ∃ f, d.save refusals breakdown path text = (d, some f) ∧
        (Failure.ofWrite f).exitCode = 3 := by
  unfold Disk.save Disk.filePlace? Disk.writeBytes Disk.opening
  dsimp only
  rw [hpath]
  cases d.find path with
  | file found _ | vacant found =>
    dsimp only [Option.bind_some]
    cases refusals.lookup found with
    | none => rfl
    | some refusal =>
      cases refusal with
      | denied => exact ⟨_, rfl, rfl⟩
      | other text => exact ⟨_, rfl, rfl⟩
  | missing => exact ⟨_, rfl, rfl⟩
  | directory found => exact ⟨_, rfl, rfl⟩
  | blocked => exact ⟨_, rfl, rfl⟩

theorem prefix_through (breakdown : Option Breakdown) (bytes : List UInt8) :
    Breakdown.through breakdown bytes <+: bytes := by
  cases breakdown with
  | none => exact List.prefix_rfl
  | some b => exact List.take_prefix b.after bytes

/-- The output path is in normal form, whether it is given or chosen. -/
theorem ofString_outputPath (r : Request) (o : Options) :
    (Path.ofString (r.outputPath o).toText).toText = (r.outputPath o).toText := by
  have hnormal : (r.outputPath o).Normal := by
    rw [Request.outputPath]
    split
    · exact Path.normal_ofString _
    · refine Path.normal_withExtension (Path.normal_ofString _) ?_ ?_ <;>
        cases o.dialect <;> decide
  rw [Path.ofString_toText hnormal]

end Writing

section Reading

variable {d : Disk} {r : Request} {source : String}

/-- The input is read if it is a file whose bytes encode a text. -/
theorem readText_eq_ok_iff : d.readText r.inputPath.toText = .ok source ↔ r.Reads d source := by
  have hpath : Path.ofString r.inputPath.toText = Path.ofString r.input :=
    Path.ofString_toText (Path.normal_ofString r.input)
  unfold Disk.readText Request.Reads
  dsimp only
  rw [hpath]
  cases hfind : d.find (Path.ofString r.input).toText with
  | file place bytes =>
    dsimp only
    constructor
    · intro hread
      cases hdecode : Text.decodeUtf8 bytes with
      | error f =>
        rw [hdecode] at hread
        cases hread
      | ok cs =>
        rw [hdecode] at hread
        cases hread
        exact ⟨place, cs, by rw [Text.decodeUtf8_eq_ok_iff.1 hdecode], rfl⟩
    · rintro ⟨place', cs, hfile, rfl⟩
      rw [Text.decodeUtf8_eq_ok_iff.2 (Found.file.inj hfile).2]
  | directory _ | vacant _ | missing | blocked => simp

/-- What is read is a file, and so has a name. -/
theorem Request.Reads.parts_ne_nil (h : r.Reads d source) : (Path.ofString r.input).parts ≠ [] := by
  obtain ⟨place, cs, hfile, -⟩ := h
  intro hnil
  rw [Disk.find_toText (Path.normal_ofString r.input), hnil] at hfile
  cases hfile

end Reading

end CommandLine

end SumLang
