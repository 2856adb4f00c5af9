import SumLang.CommandLine.Arguments

/-! The places that a run may look at, known before it starts. -/
namespace SumLang.CommandLine

/-- The places passed on the way along the pieces of a path. -/
def placesFrom (place : Place) : List String → List Place
  | [] => []
  | piece :: rest =>
    if piece = "" || piece = "." then placesFrom place rest
    else
      let next := if piece = ".." then Disk.parent place else place ++ [piece]
      next :: placesFrom next rest

def places (path : String) : List Place :=
  placesFrom (if Path.rootOf path = "" then [] else ["/"]) (Path.pieces path)

def placeText : Place → String
  | "/" :: names => "/" ++ "/".intercalate names
  | names => "/".intercalate names

/-- The paths that arguments name or imply: input, output, and the outputs chosen by default. -/
def Arguments.paths (a : Arguments) : List String :=
  let inputs := a.operands.take 1
  let defaults := inputs.flatMap fun path =>
    [Dialect.c, Dialect.cpp].map fun d =>
      ((Path.ofString path).withExtension d.extension).toText
  let named := inputs ++ (a.value? .output).toList
  named ++ named.map (fun path => (Path.ofString path).toText) ++ defaults

/-- The places that a run with some arguments may look at. -/
def footprint (args : List String) : List Place :=
  match Arguments.read {} args with
  | .error _ => []
  | .ok a => (a.paths.flatMap places).eraseDups

end SumLang.CommandLine
