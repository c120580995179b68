import Vetting.Host.Files

/-!
# Graphs from lists of packages

The root, which stands for the registry, has an edge to every package that is not in the graph yet when it is
listed.
-/

namespace Vetting.Metadata

open Job

/-- The graph so far, the packages without dependencies, and the lines that are printed. -/
structure Building where
  graph : Graph
  independent : List Literal := []
  printed : List String := []
deriving Inhabited

def nodeOf (d : Doc) : Except Fault Literal := do return .ofDoc (← d.asKey)

/-- Adds a dependency. If both ends are late, that is told. -/
def addDependency (isLate : Bool) (name : Literal) (b : Building) (value : Doc) : Except Fault Building := do
  let node ← nodeOf value
  let printed :=
    if isLate && !b.graph.hasNode node then b.printed ++ ["edge added between " ++ name.shown ++ " " ++ node.shown]
    else b.printed
  return { b with graph := b.graph.addEdge name node, printed }

def addPackage (root : Literal) (b : Building) (package : Doc) : Except (List String × Fault) Building := do
  let lift {α : Type} (b : Building) (x : Except Fault α) : Except (List String × Fault) α :=
    x.mapError fun f => (b.printed, f)
  let name ← lift b (do nodeOf (← package.at "name"))
  let isLate := b.graph.hasNode name
  let b := if isLate then b else { b with graph := b.graph.addEdge root name }
  let dependencies ← lift b (package.at "dependencies")
  if !dependencies.truthy then
    return { b with independent := if Literal.isIn name b.independent then b.independent else b.independent ++ [name] }
  let items ← lift b dependencies.items
  items.foldlM (fun b d => lift b (addDependency isLate name b d)) b

def buildGraph (file root field target : String) : Job Unit := do
  let list ← (← readDoc file).at field
  let start : Building := { graph := ({} : Graph).addNode (.text root) }
  match (← list.items).foldlM (addPackage (.text root)) start with
  | .error (printed, f) =>
    printed.forM printLine
    stop f
  | .ok b =>
    b.printed.forM printLine
    writeText (target ++ "_pkg_without_dependency.txt") (Text.join "" (b.independent.map fun n => n.shown ++ "\n"))
    writeGraph (target ++ "_dependency_graph_object.p") b.graph

def buildNamed (argv : List String) : Job Unit := do
  match argv with
  | [] =>
    printLine "Invalid number of arguments \n Usage : program_name file_name"
    stop (.exit (.number 0))
  | file :: _ =>
    let root := (Text.splitOn file "_").headD ""
    buildGraph file root (root ++ "_package") root

/-- The dependents, each once, and all packages that were visited. -/
structure Dependents where
  found : List Literal := []
  visited : List Literal := []
deriving Inhabited

def maxDepth : Nat := 990

/-- The packages that depend on one, directly or through others. A package is visited as often as there are ways
to it, so that a cycle exceeds every depth. -/
def dependentsGo (g : Graph) (root : Literal) : Nat → Literal → Dependents → Dependents × Bool
  | 0, _, d => (d, false)
  | fuel + 1, name, d =>
    (g.predecessors name).foldl (fun (d, isFine) p =>
      if !isFine then (d, false)
      else
        let d := { d with visited := d.visited ++ [p] }
        if Literal.same p root then (d, true)
        else dependentsGo g root fuel p
          (if Literal.isIn p d.found then d else { d with found := d.found ++ [p] })) (d, true)

def printDependents (argv : List String) : Job Unit := do
  match argv with
  | [] =>
    printLine "Invalid number of arguments \n Usage : program_name package_manager pkg_name"
    stop (.exit (.number 0))
  | root :: rest =>
    let g ← readGraph (root ++ "_dependency_graph_object.txt")
    let name :: _ := rest | fault .outOfRange
    if !g.hasNode (.text name) then fault .badGraph
    let (d, isFine) := dependentsGo g (.text root) maxDepth (.text name) {}
    d.visited.forM fun p => printLine p.shown
    if !isFine then fault .tooDeep
    printLine (if d.found.isEmpty then "package does not have any dependents" else (Literal.list d.found).render)

/-! ## Lists of packages from their metadata

The metadata of packages lie in files below a directory. They are gathered in one list.
-/

def runtimeNames (metadata : Doc) : Except Fault (List Doc) := do
  let hasRuntime ← if ← metadata.has "dependencies" then (do (← metadata.at "dependencies").has "runtime") else pure false
  if !hasRuntime then return []
  (← (← (← metadata.at "dependencies").at "runtime").items).mapM fun d => d.at "name"

def summary (metadata : Doc) : Except Fault Doc := do
  let name ← metadata.at "name"
  let author ← metadata.at "authors"
  let url ← metadata.at "project_uri"
  let downloads ← metadata.at "downloads"
  let version ← metadata.at "version"
  let dependencies ← runtimeNames metadata
  return .obj [("name", name), ("author", author), ("version", version), ("url", url), ("downloads", downloads),
    ("dependencies", .arr dependencies)]

/-- Gathers the packages below the working directory. -/
def gather : Job Unit := do
  let mut packages : List Doc := []
  for v in ← walk "." do
    let name := Text.stripOf v.path "./"
    printLine name
    for f in v.files.filter (fitsPattern "*.metadata.json") do
      let path := Path.join v.path f
      if !(← readText path).isEmpty then
        let package ← summary (← readDoc path)
        packages := packages ++ [package]
    printLine name
  writeText "rubygems_metadata.txt" (Doc.obj [("ruby_package", .arr packages)]).write

end Vetting.Metadata
