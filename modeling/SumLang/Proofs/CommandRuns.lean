import SumLang.Proofs.RequestSteps

/-! What a run of the command line leaves behind: which file it writes, if any, and how its exit
code follows from the arguments, the environment and the files. The reader of the arguments is any,
and so are the surroundings: a write or a message may break down, and the exit code shows it. -/
namespace SumLang

namespace CommandLine

/-- The arguments ask for a compilation. It goes to this path, and this is its code, with the
options of the environment overridden by the flags. -/
def Compiles (read : Reader) (env : Environment) (d : Disk) (args : List String) (path : Path)
    (code : String) : Prop :=
  ∃ r o source, read d args = .asks r ∧ r.arguments.task = .compile ∧ r.Chooses env o ∧
    r.WritesTo o path ∧ r.Reads d source ∧ compileText o source = .ok code

/-- A stage that the arguments ask for refuses the text of the input. -/
def Stops (read : Reader) (env : Environment) (d : Disk) (args : List String) (f : Fault) : Prop :=
  ∃ r o source stage, read d args = .asks r ∧ r.Chooses env o ∧ r.Reads d source ∧
    stage ∈ r.arguments.task.stages ∧ Refuses o source stage f

/-- Nothing breaks down: a file that is opened is written to its end, and every message gets
through. -/
structure Surroundings.Steady (s : Surroundings) : Prop where
  writes : s.file = none
  prints : s.output = none
  tells : s.errors = true

/-- The exit code of a failure, if that can be told. -/
def Surroundings.told (s : Surroundings) (exitCode : Nat) : Nat :=
  if s.errors then exitCode else 1

theorem Surroundings.told_ne_zero (s : Surroundings) {exitCode : Nat} (h : exitCode ≠ 0) :
    s.told exitCode ≠ 0 := by
  unfold Surroundings.told
  split <;> omega

@[simp] theorem exitCode_fail (o : Outcome) (s : Surroundings) (exitCode : Nat) (text : String) :
    (o.fail s exitCode text).exitCode = s.told exitCode := by
  unfold Outcome.fail Surroundings.told
  split <;> rfl

@[simp] theorem disk_fail (o : Outcome) (s : Surroundings) (exitCode : Nat) (text : String) :
    (o.fail s exitCode text).disk = o.disk := by
  unfold Outcome.fail
  split <;> rfl

theorem output_ne_none_of_print {s : Surroundings} {earlier : Nat} {messages : List String}
    {text reason : String} (h : s.print earlier messages = (text, some reason)) :
    s.output ≠ none := by
  intro hnone
  rw [Surroundings.print, hnone] at h
  cases h

section Runs

variable {read : Reader} {env : Environment} {d : Disk} {args : List String} {refusals : Refusals}
  {s : Surroundings} {r : Request} {source : String}

theorem run_of_asks (h : read d args = .asks r) :
    run env d args refusals s read = r.run env d refusals s := by
  rw [run, h]

theorem run_of_unreadable (h : read d args = .asks r) (hnone : ∀ source, ¬ r.Reads d source) :
    (run env d args refusals s read).exitCode = s.told 2 ∧
      (run env d args refusals s read).disk = d := by
  rw [run_of_asks h]
  unfold Request.run
  dsimp only
  cases hread : d.readText r.inputPath.toText with
  | ok source => exact absurd (readText_eq_ok_iff.1 hread) (hnone source)
  | error f => simp

theorem run_of_reads (h : read d args = .asks r) (hsource : r.Reads d source) :
    run env d args refusals s read = r.process env d refusals s source := by
  rw [run_of_asks h]
  unfold Request.run
  dsimp only
  rw [readText_eq_ok_iff.2 hsource]

/-- A task that inspects nothing is a compilation. -/
theorem process_of_compile (d : Disk) (refusals : Refusals) (s : Surroundings) (source : String)
    (htask : r.arguments.task = .compile) :
    (r.process env d refusals s source).exitCode =
        (r.compile (r.options env) d refusals s source).exitCode ∧
      (r.process env d refusals s source).disk =
        (r.compile (r.options env) d refusals s source).disk := by
  rw [Request.process]
  dsimp only
  rw [inspect_eq, htask]
  exact ⟨rfl, rfl⟩

theorem process_of_refuses {stage : Stage} {f : Fault} (hstage : stage ∈ r.arguments.task.stages)
    (h : Refuses (r.options env) source stage f) :
    (r.process env d refusals s source).exitCode = s.told (Failure.ofFault f).exitCode ∧
      (r.process env d refusals s source).disk = d := by
  by_cases htask : r.arguments.task = .compile
  · have herror := compile_of_error r.inputPath.toText (compileText_eq_error_iff.2 ⟨stage, h⟩)
    obtain ⟨hexit, hdisk⟩ := process_of_compile d refusals s source htask
    rw [hexit, hdisk, Request.compile, herror]
    simp
  · rw [Request.process]
    dsimp only
    rw [inspect_of_refuses htask hstage h]
    simp

theorem process_of_passes (htask : r.arguments.task ≠ .compile)
    (h : ∀ stage ∈ r.arguments.task.stages, ∀ f, ¬ Refuses (r.options env) source stage f) :
    ((r.process env d refusals s source).exitCode = 0 ∨
        s.output ≠ none ∧ (r.process env d refusals s source).exitCode = s.told 3) ∧
      (r.process env d refusals s source).disk = d := by
  obtain ⟨messages, hmessages⟩ := inspect_of_passes htask h
  rw [Request.process]
  dsimp only
  rw [hmessages]
  dsimp only
  cases hprint : s.print 0 messages with
  | mk text reason =>
    cases reason with
    | none => exact ⟨.inl rfl, rfl⟩
    | some reason =>
      refine ⟨.inr ⟨output_ne_none_of_print hprint, ?_⟩, ?_⟩
      · simp [Failure.exitCode]
      · simp

/-- A compilation with a result ends before the file is opened, because its report does not get
through, or else as the file is written. -/
theorem compile_cases {o : Options} {c : Compilation}
    (hcode : SumLang.compile o r.inputPath.toText source = .ok c) :
    (s.output ≠ none ∧ (r.compile o d refusals s source).exitCode = s.told 3 ∧
        (r.compile o d refusals s source).disk = d) ∨
      (r.compile o d refusals s source).disk =
          (d.save refusals s.file (r.outputPath o).toText c.code).1 ∧
        match (d.save refusals s.file (r.outputPath o).toText c.code).2 with
        | some f => (r.compile o d refusals s source).exitCode = s.told (Failure.ofWrite f).exitCode
        | none => (r.compile o d refusals s source).exitCode = 0 ∨
            s.output ≠ none ∧ (r.compile o d refusals s source).exitCode = s.told 3 := by
  rw [Request.compile, hcode]
  dsimp only
  generalize (if r.arguments.has .report then [c.report ++ "\n"] else []) = reports
  cases hreport : s.print 0 reports with
  | mk text reason =>
    cases reason with
    | some reason =>
      refine .inl ⟨output_ne_none_of_print hreport, ?_, ?_⟩
      · simp [Failure.exitCode]
      · simp
    | none =>
      right
      dsimp only
      cases hsave : d.save refusals s.file (r.outputPath o).toText c.code with
      | mk left fault =>
        cases fault with
        | some f => simp
        | none =>
          dsimp only
          cases hlast : s.print reports.length
              ["Compiled " ++ r.inputPath.toText ++ " -> " ++ (r.outputPath o).toText ++ "\n"] with
          | mk last reason =>
            cases reason with
            | none => exact ⟨rfl, .inl rfl⟩
            | some reason =>
              refine ⟨by simp, .inr ⟨output_ne_none_of_print hlast, ?_⟩⟩
              simp [Failure.exitCode]

/-- A compiled text is written if its path can be opened. -/
theorem process_of_compiled (d : Disk) (refusals : Refusals) (s : Surroundings) {code : String}
    (htask : r.arguments.task = .compile)
    (hcode : compileText (r.options env) source = .ok code) :
    (s.output ≠ none ∧ (r.process env d refusals s source).exitCode = s.told 3 ∧
        (r.process env d refusals s source).disk = d) ∨
      match d.opening refusals (r.destination env) with
      | .opened place =>
        ((r.process env d refusals s source).exitCode = 0 ∧ s.file = none ∨
          ¬ s.Steady ∧ (r.process env d refusals s source).exitCode = s.told 3) ∧
        (r.process env d refusals s source).disk =
          d.put place (.file (Breakdown.through s.file (Text.encodeUtf8 code)))
      | .notFound | .denied => (r.process env d refusals s source).exitCode = s.told 2 ∧
          (r.process env d refusals s source).disk = d
      | .unforeseen => (r.process env d refusals s source).exitCode = s.told 3 ∧
          (r.process env d refusals s source).disk = d := by
  rw [← map_code_compile _ r.inputPath.toText] at hcode
  obtain ⟨c, hcompile, rfl⟩ := exists_of_map_eq_ok hcode
  obtain ⟨hexit, hdisk⟩ := process_of_compile d refusals s source htask
  rw [hexit, hdisk]
  refine (compile_cases hcompile).imp_right fun hcases => ?_
  have hsave := save_of_opening d refusals s.file (ofString_outputPath r (r.options env)) c.code
  unfold Request.destination
  cases hopening : d.opening refusals (r.outputPath (r.options env)).toText with
  | opened place =>
    rw [hopening] at hsave
    rw [hsave] at hcases
    refine ⟨?_, hcases.1⟩
    cases hfile : s.file with
    | none =>
      rw [hfile] at hcases
      rcases hcases.2 with hzero | ⟨houtput, hthree⟩
      · exact .inl ⟨hzero, rfl⟩
      · exact .inr ⟨fun hsteady => houtput hsteady.prints, hthree⟩
    | some b =>
      rw [hfile] at hcases
      refine .inr ⟨fun hsteady => ?_, hcases.2⟩
      rw [hsteady.writes] at hfile
      cases hfile
  | notFound | denied | unforeseen =>
    rw [hopening] at hsave
    obtain ⟨f, hsave, hcode⟩ := hsave
    rw [hsave] at hcases
    exact ⟨hcode ▸ hcases.2, hcases.1⟩

theorem compiles_iff {path : Path} {code : String} :
    Compiles read env d args path code ↔ ∃ r source, read d args = .asks r ∧
      r.arguments.task = .compile ∧ path = r.outputPath (r.options env) ∧ r.Reads d source ∧
      compileText (r.options env) source = .ok code := by
  constructor
  · rintro ⟨r, o, source, hr, htask, ho, hpath, hsource, hcode⟩
    obtain rfl := chooses_iff.1 ho
    exact ⟨r, source, hr, htask, (writesTo_iff hsource.parts_ne_nil).1 hpath, hsource, hcode⟩
  · rintro ⟨r, source, hr, htask, hpath, hsource, hcode⟩
    exact ⟨r, _, source, hr, htask, chooses_iff.2 rfl,
      (writesTo_iff hsource.parts_ne_nil).2 hpath, hsource, hcode⟩

theorem stops_iff {f : Fault} :
    Stops read env d args f ↔ ∃ r source stage, read d args = .asks r ∧ r.Reads d source ∧
      stage ∈ r.arguments.task.stages ∧ Refuses (r.options env) source stage f := by
  constructor
  · rintro ⟨r, o, source, stage, hr, ho, hsource, hstage, hrefuses⟩
    obtain rfl := chooses_iff.1 ho
    exact ⟨r, source, stage, hr, hsource, hstage, hrefuses⟩
  · rintro ⟨r, source, stage, hr, hsource, hstage, hrefuses⟩
    exact ⟨r, _, source, stage, hr, chooses_iff.2 rfl, hsource, hstage, hrefuses⟩

/-- The ways that a run can end, with its exit code and the files it leaves. -/
inductive Ends (read : Reader) (env : Environment) (d : Disk) (args : List String)
    (refusals : Refusals) (s : Surroundings) : Nat → Disk → Prop where
  | shown {text : String} : read d args = .shows text → Ends read env d args refusals s 0 d
  | unshown {text : String} : read d args = .shows text → ¬ s.Steady →
      Ends read env d args refusals s 1 d
  | rejected {text : String} : read d args = .rejects text →
      Ends read env d args refusals s (s.told 2) d
  | unreadable {r : Request} : read d args = .asks r → (∀ source, ¬ r.Reads d source) →
      Ends read env d args refusals s (s.told 2) d
  | refused {f : Fault} : Stops read env d args f → ¬ Overlong f →
      Ends read env d args refusals s (s.told 1) d
  | overlong {f : Fault} : Stops read env d args f → Overlong f →
      Ends read env d args refusals s (s.told 3) d
  | inspected {r : Request} {source : String} : read d args = .asks r → r.Reads d source →
      r.arguments.task ≠ .compile → (∀ f, ¬ Stops read env d args f) →
      Ends read env d args refusals s 0 d
  | muted : ¬ s.Steady → Ends read env d args refusals s (s.told 3) d
  | unopened {path : Path} {code : String} : Compiles read env d args path code →
      d.opening refusals path.toText = .notFound ∨ d.opening refusals path.toText = .denied →
      Ends read env d args refusals s (s.told 2) d
  | unforeseen {path : Path} {code : String} : Compiles read env d args path code →
      d.opening refusals path.toText = .unforeseen → Ends read env d args refusals s (s.told 3) d
  | interrupted {path : Path} {code : String} {place : Place} {bytes : List UInt8} :
      Compiles read env d args path code → d.opening refusals path.toText = .opened place →
      bytes <+: Text.encodeUtf8 code → ¬ s.Steady →
      Ends read env d args refusals s (s.told 3) (d.put place (.file bytes))
  | written {path : Path} {code : String} {place : Place} : Compiles read env d args path code →
      d.opening refusals path.toText = .opened place →
      Ends read env d args refusals s 0 (d.put place (.file (Text.encodeUtf8 code)))

/-- A compilation that no stage refuses has a result. -/
theorem exists_compileText_of_passes {o : Options} (h : ∀ stage f, ¬ Refuses o source stage f) :
    ∃ code, compileText o source = .ok code := by
  cases hcompile : compileText o source with
  | ok code => exact ⟨code, rfl⟩
  | error f =>
    obtain ⟨stage, hrefuses⟩ := compileText_eq_error_iff.1 hcompile
    exact absurd hrefuses (h stage f)

theorem mem_stages_compile (stage : Stage) : stage ∈ Task.compile.stages := by
  cases stage <;> simp [Task.stages]

theorem ends_of_compiled {code : String} (h : read d args = .asks r) (hsource : r.Reads d source)
    (htask : r.arguments.task = .compile)
    (hcode : compileText (r.options env) source = .ok code) :
    Ends read env d args refusals s (r.process env d refusals s source).exitCode
      (r.process env d refusals s source).disk := by
  have hcompiles : Compiles read env d args (r.outputPath (r.options env)) code :=
    compiles_iff.2 ⟨r, source, h, htask, rfl, hsource, hcode⟩
  rcases process_of_compiled d refusals s htask hcode with ⟨houtput, hexit, hdisk⟩ | hwritten
  · rw [hexit, hdisk]
    exact .muted fun hsteady => houtput hsteady.prints
  unfold Request.destination at hwritten
  cases hopening : d.opening refusals (r.outputPath (r.options env)).toText with
  | opened place =>
    rw [hopening] at hwritten
    obtain ⟨⟨hexit, hfile⟩ | ⟨hbroken, hexit⟩, hdisk⟩ := hwritten
    · rw [hexit, hdisk, hfile]
      exact .written hcompiles hopening
    · rw [hexit, hdisk]
      exact .interrupted hcompiles hopening (prefix_through s.file _) hbroken
  | notFound =>
    rw [hopening] at hwritten
    rw [hwritten.1, hwritten.2]
    exact .unopened hcompiles (.inl hopening)
  | denied =>
    rw [hopening] at hwritten
    rw [hwritten.1, hwritten.2]
    exact .unopened hcompiles (.inr hopening)
  | unforeseen =>
    rw [hopening] at hwritten
    rw [hwritten.1, hwritten.2]
    exact .unforeseen hcompiles hopening

theorem ends_of_reads (h : read d args = .asks r) (hsource : r.Reads d source) :
    Ends read env d args refusals s (r.process env d refusals s source).exitCode
      (r.process env d refusals s source).disk := by
  by_cases hrefused : ∃ stage ∈ r.arguments.task.stages, ∃ f,
      Refuses (r.options env) source stage f
  · obtain ⟨stage, hstage, f, hrefuses⟩ := hrefused
    have hstops : Stops read env d args f :=
      stops_iff.2 ⟨r, source, stage, h, hsource, hstage, hrefuses⟩
    obtain ⟨hexit, hdisk⟩ : (r.process env d refusals s source).exitCode = _ ∧
      (r.process env d refusals s source).disk = d := process_of_refuses hstage hrefuses
    rw [hexit, hdisk]
    by_cases hlong : Overlong f
    · rw [hrefuses.exitCode_of_overlong hlong]
      exact .overlong hstops hlong
    · rw [hrefuses.exitCode_of_not_overlong hlong]
      exact .refused hstops hlong
  have hpasses : ∀ stage ∈ r.arguments.task.stages, ∀ f,
      ¬ Refuses (r.options env) source stage f :=
    fun stage hstage f hrefuses => hrefused ⟨stage, hstage, f, hrefuses⟩
  by_cases htask : r.arguments.task = .compile
  · rw [htask] at hpasses
    obtain ⟨code, hcode⟩ :=
      exists_compileText_of_passes fun stage f => hpasses stage (mem_stages_compile stage) f
    exact ends_of_compiled h hsource htask hcode
  · obtain ⟨hexit, hdisk⟩ := process_of_passes (d := d) (r := r) htask hpasses
    rw [hdisk]
    rcases hexit with hexit | ⟨houtput, hexit⟩
    · rw [hexit]
      refine .inspected h hsource htask fun f hstops => ?_
      obtain ⟨r', source', stage, hr', hsource', hstage, hrefuses⟩ := stops_iff.1 hstops
      cases h.symm.trans hr'
      have hsame := (readText_eq_ok_iff.2 hsource).symm.trans (readText_eq_ok_iff.2 hsource')
      cases Except.ok.inj hsame
      exact hpasses stage hstage f hrefuses
    · rw [hexit]
      exact .muted fun hsteady => houtput hsteady.prints

theorem ends_run (read : Reader) (env : Environment) (d : Disk) (args : List String)
    (refusals : Refusals) (s : Surroundings) :
    Ends read env d args refusals s (run env d args refusals s read).exitCode
      (run env d args refusals s read).disk := by
  cases hread : read d args with
  | shows text =>
    rw [run, hread]
    dsimp only
    cases hprint : s.print 0 [text] with
    | mk output reason =>
      cases reason with
      | none => exact .shown hread
      | some reason =>
        exact .unshown hread fun hsteady => output_ne_none_of_print hprint hsteady.prints
  | rejects text =>
    rw [run, hread]
    dsimp only
    rw [exitCode_fail, disk_fail]
    exact .rejected hread
  | asks r =>
    by_cases hreads : ∃ source, r.Reads d source
    · obtain ⟨source, hsource⟩ := hreads
      rw [run_of_reads hread hsource]
      exact ends_of_reads hread hsource
    · have hnone : ∀ source, ¬ r.Reads d source := fun source h => hreads ⟨source, h⟩
      obtain ⟨hexit, hdisk⟩ := run_of_unreadable hread hnone
      rw [hexit, hdisk]
      exact .unreadable hread hnone

theorem exists_ends (read : Reader) (env : Environment) (d : Disk) (args : List String)
    (refusals : Refusals) (s : Surroundings) :
    ∃ c left, Ends read env d args refusals s c left ∧
      (run env d args refusals s read).exitCode = c ∧
      (run env d args refusals s read).disk = left :=
  ⟨_, _, ends_run read env d args refusals s, rfl, rfl⟩

theorem run_of_rejects {text : String} (h : read d args = .rejects text) :
    (run env d args refusals s read).exitCode = s.told 2 := by
  rw [run, h]
  exact exitCode_fail _ s 2 text

/-- Unless something breaks down, a run that fails changes nothing. -/
theorem disk_run_eq_of_exitCode_ne (hs : s.Steady)
    (h : (run env d args refusals s read).exitCode ≠ 0) :
    (run env d args refusals s read).disk = d := by
  obtain ⟨c, left, hends, hexit, hdisk⟩ := exists_ends read env d args refusals s
  rw [hexit] at h
  rw [hdisk]
  -- Only two ways to end leave other files: one has exit code 0, and the other is a breakdown.
  cases hends with
  | written => exact absurd rfl h
  | interrupted _ _ _ hbroken => exact absurd hs hbroken
  | _ => rfl

/-- A run changes one file at most, and only if it compiles. -/
theorem disk_run_cases (read : Reader) (env : Environment) (d : Disk) (args : List String)
    (refusals : Refusals) (s : Surroundings) :
    (run env d args refusals s read).disk = d ∨ ∃ path code place bytes,
      Compiles read env d args path code ∧ d.opening refusals path.toText = .opened place ∧
      bytes <+: Text.encodeUtf8 code ∧
      (run env d args refusals s read).disk = d.put place (.file bytes) := by
  obtain ⟨c, left, hends, -, hdisk⟩ := exists_ends read env d args refusals s
  rw [hdisk]
  cases hends with
  | @interrupted path code place bytes hcompiles hopening hbytes =>
    exact .inr ⟨path, code, place, bytes, hcompiles, hopening, hbytes, rfl⟩
  | @written path code place hcompiles hopening =>
    exact .inr ⟨path, code, place, _, hcompiles, hopening, List.prefix_rfl, rfl⟩
  | _ => exact .inl rfl

theorem exists_written_of_exitCode_eq_zero (hr : read d args = .asks r)
    (htask : r.arguments.task = .compile) (h : (run env d args refusals s read).exitCode = 0) :
    ∃ path code place, Compiles read env d args path code ∧
      d.opening refusals path.toText = .opened place ∧
      (run env d args refusals s read).disk = d.put place (.file (Text.encodeUtf8 code)) := by
  obtain ⟨c, left, hends, hexit, hdisk⟩ := exists_ends read env d args refusals s
  rw [hexit] at h
  rw [hdisk]
  cases hends with
  | shown hshown =>
    rw [hr] at hshown
    cases hshown
  | inspected hr' _ hother _ =>
    cases hr.symm.trans hr'
    exact absurd htask hother
  | @written path code place hcompiles hopening =>
    exact ⟨path, code, place, hcompiles, hopening, rfl⟩
  | unshown => cases h
  | rejected | unreadable | refused | overlong | muted | unopened | unforeseen | interrupted =>
    exact absurd h (s.told_ne_zero (by omega))

end Runs

/-- What a run may do to files, whatever breaks down under it. -/
structure Confined (read : Reader) (env : Environment) (d : Disk) (args : List String)
    (refusals : Refusals) (o : Outcome) : Prop where
  /-- All that can change is the file at the output path, which then starts as the code does. -/
  changed : o.disk = d ∨ ∃ path code place bytes, Compiles read env d args path code ∧
    d.opening refusals path.toText = .opened place ∧ bytes <+: Text.encodeUtf8 code ∧
    ∀ other, Disk.entry? o.disk other =
      if other = place then some (.file bytes) else d.entry? other
  /-- A run that is no compilation changes nothing. -/
  inspected : (∀ r, read d args = .asks r → r.arguments.task ≠ .compile) → o.disk = d
  /-- A compilation that ends well leaves its code at the output path, and all else as it was. -/
  written : ∀ r, read d args = .asks r → r.arguments.task = .compile → o.exitCode = 0 →
    ∃ path code place, Compiles read env d args path code ∧
      d.opening refusals path.toText = .opened place ∧
      ∀ other, Disk.entry? o.disk other =
        if other = place then some (.file (Text.encodeUtf8 code)) else d.entry? other

theorem confined_run (read : Reader) (env : Environment) (d : Disk) (args : List String)
    (refusals : Refusals) (s : Surroundings) :
    Confined read env d args refusals (run env d args refusals s read) where
  changed := by
    refine (disk_run_cases read env d args refusals s).imp_right ?_
    rintro ⟨path, code, place, bytes, hcompiles, hopening, hbytes, hdisk⟩
    refine ⟨path, code, place, bytes, hcompiles, hopening, hbytes, fun other => ?_⟩
    rw [hdisk]
    exact Disk.entry?_put (Disk.entry?_of_opening hopening) other _
  inspected := by
    intro hother
    rcases disk_run_cases read env d args refusals s with hdisk | ⟨path, code, -, -, hcompiles, -⟩
    · exact hdisk
    · obtain ⟨r, -, hr, htask, -⟩ := compiles_iff.1 hcompiles
      exact absurd htask (hother r hr)
  written := by
    intro r hr htask hexit
    obtain ⟨path, code, place, hcompiles, hopening, hdisk⟩ :=
      exists_written_of_exitCode_eq_zero hr htask hexit
    refine ⟨path, code, place, hcompiles, hopening, fun other => ?_⟩
    rw [hdisk]
    exact Disk.entry?_put (Disk.entry?_of_opening hopening) other _

end CommandLine

end SumLang
