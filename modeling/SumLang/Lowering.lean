import SumLang.Lowering.Statement

/-! The lowering of whole programs. -/
namespace SumLang.Lowering

def functions (nodes : List Node) : List Node :=
  nodes.filter fun
    | .function _ _ => true
    | _ => false

def prototypes (nodes : List Node) : List Prototype :=
  nodes.filterMap fun
    | .function p _ => some p
    | _ => none

/-- The nodes that are neither functions nor enums. -/
def statements (nodes : List Node) : List Node :=
  nodes.filter fun
    | .function _ _ => false
    | .enumeration _ => false
    | _ => true

/-- The memory at the start of a program: nothing written and nothing declared. The functions and
enums remembered from an earlier program stay until those of this one are known. -/
def restart (m : Memory) : Memory :=
  { functions := m.functions, enums := m.enums }

def readProgram (nodes : List Node) : Lowering Unit := do
  modify restart
  match Registry.ofProgram nodes with
  | .error f => throw (.enum f)
  | .ok enums => modify fun m => { m with enums }
  modify fun m =>
    { m with functions := ((prototypes nodes).map fun p => (p.name, p.result)).reverse }

/-- Statements at the top level need a `main` that the program does not define itself. -/
def checkEntryPoint (s : Settings) (nodes : List Node) : Lowering Unit :=
  if s.entryPoint && !(statements nodes).isEmpty && (prototypes nodes).any (·.name == "main") then
    throw .entryPointConflict
  else return

def writeHeader (s : Settings) : Lowering Unit := do
  (s.dialect.includeLines ++ s.dialect.namespaceLine.toList).forM fun l => write (.header l)
  write .blank

def writeEnums (s : Settings) : Lowering Unit := do
  (← get).enums.enums.forM fun l => do
    writeLines (l.lines s)
    write .blank

def writeForward (s : Settings) (nodes : List Node) : Lowering Unit := do
  if s.forwardDeclarations && !(prototypes nodes).isEmpty then
    (prototypes nodes).forM fun p => writeStatement (.prototype (s.signature p))
    write .blank

/-- A top-level node; a blank line follows a function, and enums are already declared. -/
def topLevel (s : Settings) (n : Node) : Lowering Unit := do
  match n with
  | .enumeration _ => return
  | .function _ _ => do
    statement s n
    write .blank
  | _ => statement s n

def mainSignature : Code.Signature := ⟨⟨"int", "main"⟩, [], true⟩

/-- The `main` function that runs the statements of the top level. -/
def writeMain (s : Settings) (body : List Node) : Lowering Unit := do
  write (.enter (.function mainSignature))
  enter
  lowerAll s body
  writeStatement (.yield "0")
  leave
  write (.leave none)

/-- The functions and the statements: collected into `main`, or in the order of the program. -/
def writeBody (s : Settings) (nodes : List Node) : Lowering Unit := do
  if s.entryPoint then
    (functions nodes).forM (topLevel s)
    if !(statements nodes).isEmpty then writeMain s (statements nodes)
  else nodes.forM (topLevel s)

/-- Lowers a program to the lines of its text. What was remembered before has no influence. -/
def program (s : Settings) (nodes : List Node) : Lowering (List String) := do
  readProgram nodes
  checkEntryPoint s nodes
  writeHeader s
  writeEnums s
  writeForward s nodes
  writeBody s nodes
  modify fun m => { m with lines := (Line.dropBlankEnd m.lines.toList).toArray }
  return (← get).lines.toList.map (Line.render s.indent)

end Lowering

def fileText (lines : List String) : String :=
  "\n".intercalate lines ++ "\n"

def lowerToLines (s : Settings) (nodes : List Node) : Except LoweringFault (List String) :=
  match Lowering.program s nodes {} with
  | .ok lines _ => .ok lines
  | .error fault _ => .error fault

/-- The text that a program is lowered to. -/
def generate (s : Settings) (nodes : List Node) : Except LoweringFault String :=
  (lowerToLines s nodes).map fileText

/-- A generator that is used for one program after another. -/
structure Generator where
  settings : Settings
  memory : Memory := {}

def Generator.next (g : Generator) (nodes : List Node) : Except LoweringFault String × Generator :=
  match Lowering.program g.settings nodes g.memory with
  | .ok lines m => (.ok (fileText lines), { g with memory := m })
  | .error fault m => (.error fault, { g with memory := m })

end SumLang
