import SumLang.CommandLine.Arguments
import SumLang.CommandLine.Failure
import SumLang.CommandLine.Stream
import SumLang.CommandLine.Surroundings
import SumLang.Report

/-! A run of the command line, from arguments, environment and files to output and files. -/
namespace SumLang.CommandLine

/-- What a run leaves: exit code, the messages of the two outputs, notes, and the files. -/
structure Outcome where
  exitCode : Nat := 0
  output : String := ""
  /-- Lines that come before the errors. -/
  notes : String := ""
  errors : String := ""
  disk : Disk
deriving DecidableEq, Repr

namespace Outcome

def outputText (o : Outcome) (s : Stream) : String :=
  s.message o.output

/-- What is printed beside the output. Notes are not messages, and no stream changes them. -/
def errorText (o : Outcome) (s : Stream) : String :=
  o.notes ++ s.message o.errors

/-- Ends a run with a complaint. Where that does not get through either, nothing catches what goes
wrong. -/
def fail (o : Outcome) (s : Surroundings) (exitCode : Nat) (text : String) : Outcome :=
  if s.errors then { o with exitCode, errors := text } else { o with exitCode := 1 }

end Outcome

/-- The options of the environment, with what the arguments say instead. -/
def Request.options (r : Request) (env : Environment) : Options :=
  let o := Options.ofEnvironment env
  { o with
    dialect := r.dialect.getD o.dialect
    entryPoint := o.entryPoint && !r.arguments.has .noEntryPoint
    enumTags := o.enumTags && !r.arguments.has .noEnumTags }

def Request.inputPath (r : Request) : Path :=
  Path.ofString r.input

/-- The output file: the one asked for, or the input with the extension of the target. -/
def Request.outputPath (r : Request) (o : Options) : Path :=
  match r.output with
  | some path => Path.ofString path
  | none => r.inputPath.withExtension o.dialect.extension

/-- The messages printed to inspect a source text without compiling it, if that is asked for. -/
def Request.inspect (r : Request) (stripped : String) : Option (Except Fault (List String)) :=
  if r.arguments.has .stripOnly then some (.ok [stripped ++ "\n"])
  else if r.arguments.has .tokens then
    some (match Token.tokenize stripped with
      | .ok tokens => .ok (tokens.map fun t => t.describe ++ "\n")
      | .error f => .error (.source (.lexical f)))
  else if r.arguments.has .outline then
    some (match parseSource stripped with
      | .ok nodes => .ok [(Node.program nodes).outline ++ "\n"]
      | .error f => .error (.source f))
  else none

def Request.showNotes (r : Request) (notes : List String) : String :=
  if r.arguments.has .verbose then String.join (notes.map fun n => "DEBUG: " ++ n ++ "\n") else ""

/-- Compiles a source text and writes the result. The report is printed before the file is opened,
and the last message after it is written. -/
def Request.compile (r : Request) (o : Options) (d : Disk) (refusals : Refusals) (s : Surroundings)
    (source : String) : Outcome :=
  let shown := r.inputPath.toText
  let out := (r.outputPath o).toText
  let notes := r.showNotes (Compilation.notes o shown source)
  match SumLang.compile o shown source with
  | .error f =>
    Outcome.fail { notes, disk := d } s (Failure.ofFault f).exitCode (Failure.ofFault f).text
  | .ok c =>
    let reports := if r.arguments.has .report then [c.report ++ "\n"] else []
    match s.print 0 reports with
    | (output, some reason) =>
      Outcome.fail { output, notes, disk := d } s (Failure.internal reason).exitCode
        (Failure.internal reason).text
    | (output, none) =>
      match d.save refusals s.file out c.code with
      | (left, some f) =>
        Outcome.fail { output, notes, disk := left } s (Failure.ofWrite f).exitCode
          (Failure.ofWrite f).text
      | (left, none) =>
        let notes := notes ++
          r.showNotes ["Wrote " ++ toString c.code.length ++ " bytes to " ++ out]
        match s.print reports.length ["Compiled " ++ shown ++ " -> " ++ out ++ "\n"] with
        | (last, none) => { output := output ++ last, notes, disk := left }
        | (last, some reason) =>
          Outcome.fail { output := output ++ last, notes, disk := left } s
            (Failure.internal reason).exitCode (Failure.internal reason).text

def Request.process (r : Request) (env : Environment) (d : Disk) (refusals : Refusals)
    (s : Surroundings) (source : String) : Outcome :=
  let o := r.options env
  let notes := r.showNotes
    (("Compiling " ++ r.inputPath.toText ++ " to " ++ o.dialect.title) ::
      if o.stripComments then Compilation.strippedNote source else [])
  match r.inspect (o.prepare source) with
  | some (.ok messages) =>
    match s.print 0 messages with
    | (output, none) => { output, notes, disk := d }
    | (output, some reason) =>
      Outcome.fail { output, notes, disk := d } s (Failure.internal reason).exitCode
        (Failure.internal reason).text
  | some (.error f) =>
    Outcome.fail { notes, disk := d } s (Failure.ofFault f).exitCode (Failure.ofFault f).text
  | none =>
    let outcome := r.compile o d refusals s source
    { outcome with notes := notes ++ outcome.notes }

def Request.run (r : Request) (env : Environment) (d : Disk) (refusals : Refusals)
    (s : Surroundings) : Outcome :=
  let shown := r.inputPath.toText
  match d.readText shown with
  | .error f =>
    let notes := (if r.arguments.has .verbose then "WARNING: " else "") ++ "Cannot read " ++
      shown ++ ": " ++ f.message ++ "\n"
    Outcome.fail { notes, disk := d } s 2 ("Error: cannot read " ++ shown ++ "\n")
  | .ok source => r.process env d refusals s source

/-- Runs the command line, where the system refuses to open some places for writing. Where even the
text that is asked for in place of a run does not get through, nothing catches that. -/
def run (env : Environment) (d : Disk) (args : List String) (refusals : Refusals := [])
    (s : Surroundings := {}) (read : Reader := interpret) : Outcome :=
  match read d args with
  | .shows text =>
    match s.print 0 [text] with
    | (output, none) => { output, disk := d }
    | (output, some _) => { exitCode := 1, output, disk := d }
  | .rejects text => Outcome.fail { disk := d } s 2 text
  | .asks r => r.run env d refusals s

end SumLang.CommandLine
