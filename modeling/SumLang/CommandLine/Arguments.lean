import SumLang.Dialect
import SumLang.Disk

/-! The arguments of the command line: what they ask for, and how they are rejected. -/
namespace SumLang.CommandLine

def version : String := "teddyc, version 1.0.0\n"

def usageLine : String := "Usage: teddyc [OPTIONS] INPUT_FILE\n"

def help : String :=
  String.join (usageLine :: [
    "",
    "  Compile Teddy source code to C or C++.",
    "",
    "  INPUT_FILE is the Teddy source file (.teddy) to compile.",
    "",
    "  Examples:",
    "      teddyc hello.teddy               # Outputs hello.c",
    "      teddyc hello.teddy -o out.c      # Specify output file",
    "      teddyc -t cpp hello.teddy        # Outputs hello.cpp",
    "      teddyc --ast hello.teddy         # Dump the syntax tree",
    "      teddyc -v hello.teddy            # Verbose output",
    "",
    "Options:",
    "  -o, --output FILE      Output file (default: input.c, or input.cpp for C++)",
    "  -t, --target [c|cpp]   Output language. Default: c, or $TEDDY_TARGET.",
    "  --tokens               Print tokens and exit (for debugging)",
    "  --ast                  Print AST and exit (for debugging)",
    "  -E, --preprocess-only  Strip comments only, output to stdout",
    "  --report               Print source, tokens, AST and generated code to",
    "                         stdout",
    "  --no-entry-point       Emit top-level statements at file scope instead of in",
    "                         main()",
    "  --no-enum-tags         Lower enums without a discriminant tag (disables 'if",
    "                         let')",
    "  -v, --verbose          Verbose output",
    "  --version              Show the version and exit.",
    "  --help                 Show this message and exit."].map (· ++ "\n"))

inductive Switch where
  | tokens
  | outline
  | stripOnly
  | report
  | noEntryPoint
  | noEnumTags
  | verbose
  | version
  | help
deriving DecidableEq, Repr

inductive Setting where
  | output
  | target
deriving DecidableEq, Repr

inductive Parameter where
  | switch (s : Switch)
  | setting (s : Setting)
deriving DecidableEq, Repr

def longOption? : String → Option Parameter
  | "--output" => some (.setting .output)
  | "--target" => some (.setting .target)
  | "--tokens" => some (.switch .tokens)
  | "--ast" => some (.switch .outline)
  | "--preprocess-only" => some (.switch .stripOnly)
  | "--report" => some (.switch .report)
  | "--no-entry-point" => some (.switch .noEntryPoint)
  | "--no-enum-tags" => some (.switch .noEnumTags)
  | "--verbose" => some (.switch .verbose)
  | "--version" => some (.switch .version)
  | "--help" => some (.switch .help)
  | _ => none

def shortOption? : Char → Option Parameter
  | 'o' => some (.setting .output)
  | 't' => some (.setting .target)
  | 'E' => some (.switch .stripOnly)
  | 'v' => some (.switch .verbose)
  | _ => none

inductive UsageFault where
  | valueNeeded (option : String)
  | valueRefused (option : String)
  | noSuchOption (option : String)
  | outputIsDirectory (path : String)
  | unknownTarget (name : String)
  | inputMissing
  | inputNotFound (path : String)
  | inputIsDirectory (path : String)
  | extraArguments (args : List String)
deriving DecidableEq, Repr

namespace UsageFault

def message : UsageFault → String
  | valueNeeded option => "Option " ++ Text.quoted option ++ " requires an argument."
  | valueRefused option => "Option " ++ Text.quoted option ++ " does not take a value."
  | noSuchOption option => "No such option: " ++ option
  | outputIsDirectory path =>
    "Invalid value for '-o' / '--output': File " ++ Text.quoted path ++ " is a directory."
  | unknownTarget name =>
    "Invalid value for '-t' / '--target': " ++ Text.quoted name ++ " is not one of 'c', 'cpp'."
  | inputMissing => "Missing argument 'INPUT_FILE'."
  | inputNotFound path =>
    "Invalid value for 'INPUT_FILE': File " ++ Text.quoted path ++ " does not exist."
  | inputIsDirectory path =>
    "Invalid value for 'INPUT_FILE': File " ++ Text.quoted path ++ " is a directory."
  | extraArguments args =>
    "Got unexpected extra argument" ++ (if args.length = 1 then "" else "s") ++ " (" ++
      " ".intercalate args ++ ")"

/-- A fault in the form of a single option is told without the usage. -/
def showsUsage : UsageFault → Bool
  | valueNeeded _ | valueRefused _ => false
  | _ => true

def usage : String :=
  usageLine ++ "Try 'teddyc --help' for help.\n\n"

def render (f : UsageFault) : String :=
  (if f.showsUsage then usage else "") ++ "Error: " ++ f.message ++ "\n"

end UsageFault

/-- What the arguments say, before any of it is checked: switches, values in the order given, and
all that is not an option. -/
structure Arguments where
  switches : List Switch := []
  values : List (Setting × String) := []
  operands : List String := []
deriving DecidableEq, Repr

namespace Arguments

def add (a : Arguments) : Parameter → Arguments
  | .switch s => { a with switches := a.switches ++ [s] }
  | .setting _ => a

def set (a : Arguments) (s : Setting) (value : String) : Arguments :=
  { a with values := a.values ++ [(s, value)] }

/-- A value that has to come from the next argument; the result says whether it was taken. -/
def setFromNext (a : Arguments) (s : Setting) (option : String) (next : Option String) :
    Except UsageFault (Arguments × Bool) :=
  match next with
  | some value => .ok (a.set s value, true)
  | none => .error (.valueNeeded option)

/-- An option with two dashes, and a value after an equals sign or in the next argument. -/
def readLong (a : Arguments) (arg : List Char) (next : Option String) :
    Except UsageFault (Arguments × Bool) :=
  let option := String.ofList (arg.takeWhile (· != '='))
  let value := (arg.dropWhile (· != '=')).tail?.map String.ofList
  match longOption? option, value with
  | none, _ => .error (.noSuchOption option)
  | some (.switch s), none => .ok (a.add (.switch s), false)
  | some (.switch _), some _ => .error (.valueRefused option)
  | some (.setting s), some v => .ok (a.set s v, false)
  | some (.setting s), none => a.setFromNext s option next

/-- The letters after a single dash. A letter that needs a value takes the rest of the argument, or
the next argument if nothing is left. -/
def readShort (a : Arguments) (next : Option String) :
    List Char → Except UsageFault (Arguments × Bool)
  | [] => .ok (a, false)
  | c :: cs =>
    let option := String.ofList ['-', c]
    match shortOption? c with
    | none => .error (.noSuchOption option)
    | some (.switch s) => readShort (a.add (.switch s)) next cs
    | some (.setting s) =>
      if cs.isEmpty then a.setFromNext s option next
      else .ok (a.set s (String.ofList cs), false)

/-- Reads arguments in order. Two dashes alone end the options; a dash alone is no option. -/
def read (a : Arguments) : List String → Except UsageFault Arguments
  | [] => .ok a
  | arg :: rest =>
    match arg.toList with
    | ['-', '-'] => .ok { a with operands := a.operands ++ rest }
    | '-' :: c :: cs => do
      let (a, taken) ←
        if c = '-' then a.readLong ('-' :: '-' :: cs) rest.head?
        else a.readShort rest.head? (c :: cs)
      read a (rest.drop (if taken then 1 else 0))
    | _ => read { a with operands := a.operands ++ [arg] } rest
termination_by args => args.length
decreasing_by all_goals simp only [List.length_cons, List.length_drop]; omega

def has (a : Arguments) (s : Switch) : Bool :=
  a.switches.contains s

/-- What is shown in place of a run, by the first switch that asks for that. -/
def shown? (a : Arguments) : Option String :=
  a.switches.findSome? fun
    | .version => some version
    | .help => some help
    | _ => none

def value? (a : Arguments) (s : Setting) : Option String :=
  a.values.reverse.lookup s

/-- The options that were given a value, each where it first appears. -/
def settings (a : Arguments) : List Setting :=
  (a.values.map Prod.fst).eraseDups

end Arguments

structure Request where
  input : String
  output : Option String
  dialect : Option Dialect
  arguments : Arguments
deriving DecidableEq, Repr

def target? (name : String) : Option Dialect :=
  match Text.lowercase name with
  | "c" => some .c
  | "cpp" => some .cpp
  | _ => none

def checkSetting (d : Disk) (a : Arguments) (s : Setting) : Except UsageFault Unit :=
  match s, a.value? s with
  | .output, some path =>
    match d.find path with
    | .directory _ => .error (.outputIsDirectory path)
    | _ => .ok ()
  | .target, some name => if (target? name).isSome then .ok () else .error (.unknownTarget name)
  | _, none => .ok ()

def checkInput (d : Disk) (a : Arguments) : Except UsageFault String :=
  match a.operands with
  | [] => .error .inputMissing
  | path :: _ =>
    match d.find path with
    | .file _ _ => .ok path
    | .directory _ => .error (.inputIsDirectory path)
    | _ => .error (.inputNotFound path)

/-- Checks arguments against the file system: options in the order given, then the input file, then
what is left over. -/
def check (d : Disk) (a : Arguments) : Except UsageFault Request := do
  a.settings.forM (checkSetting d a)
  let input ← checkInput d a
  match a.operands.drop 1 with
  | [] => return ⟨input, a.value? .output, (a.value? .target).bind target?, a⟩
  | extra => throw (.extraArguments extra)

inductive Reading where
  | shows (text : String)
  | rejects (text : String)
  | asks (r : Request)
deriving DecidableEq, Repr

/-- A reader of arguments, which may look at the files there are. -/
abbrev Reader := Disk → List String → Reading

def interpret : Reader := fun d args =>
  match Arguments.read {} args with
  | .error f => .rejects f.render
  | .ok a =>
    match a.shown? with
    | some text => .shows text
    | none =>
      match check d a with
      | .error f => .rejects f.render
      | .ok r => .asks r

end SumLang.CommandLine
