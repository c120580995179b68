import Vetting.Package.Row
import Vetting.Registry.Service

/-!
# Graphs of dependencies

What the packages of a list depend on is gathered from their registry and kept as a graph. A graph
can be cut down to some packages and all that they depend on.
-/

namespace Vetting.Survey

open Registry Job Path

/-- The stored graphs of a language: of all packages, the popular ones, and the versions of these. -/
def graphFiles : Language → Option (List String)
  | .javascript => some [
    "../airflow/data/npmjs.with_stats.dep_graph.pickle.tgz",
    "../airflow/npmjs_dags0/npmjs.with_stats.popular.pickle",
    "../airflow/data/npmjs.with_stats.popular.versions.dep_graph.pickle.tgz"]
  | .python => some [
    "../airflow/data/pypi.with_stats.dep_graph.pickle.tgz",
    "../airflow/pypi_dags/pypi.with_stats.popular.pickle",
    "../airflow/data/pypi.with_stats.popular.versions.dep_graph.pickle.tgz"]
  | .ruby => some [
    "../airflow/data/rubygems.with_stats.dep_graph.pickle.tgz",
    "../airflow/rubygems_dags/rubygems.with_stats.popular.pickle",
    "../airflow/data/rubygems.with_stats.popular.versions.dep_graph.pickle.tgz"]
  | .php => some [
    "../airflow/data/packagist.with_stats.dep_graph.pickle.tgz",
    "../airflow/packagist_dags/packagist.with_stats.popular.pickle",
    "../airflow/data/packagist.with_stats.popular.versions.dep_graph.pickle.tgz"]
  | .java => some ["../airflow/data/maven.dep_graph.pickle.tgz"]
  | _ => none

variable (l : Language) (r : Sheet.Line) (c : Cut) (g : Graph) (seedFile : String)

def storedGraph (popular versions : Bool := false) : Job Graph := do
  let place ← match popular, versions with
    | true, false => pure 1
    | true, true => pure 2
    | false, false => pure 0
    | false, true => stop (.failure "Unexpected input: popular=False, versions=True")
  let some files := graphFiles l | stop (.missingKey l.shownKey)
  let some file := files[place]? | fault .outOfRange
  if Text.endsWith file ".tgz" then readPackedGraph file else readGraphText file

def rowLiteral : Literal :=
  .dict ((r.cells.map fun (k, v) => (Literal.text k, match v with | some s => Literal.text s | none => .none))
    ++ (if r.extra.isEmpty then [] else [(Literal.none, Literal.list (r.extra.map .text))]))

def noVersion : Fault :=
  .failure (Literal.tuple [.text "record_version is True, but version is not specified in %s", rowLiteral r]).render

def nameOf : Except Fault String := do
  match ← Package.Row.cell r.cells "package name" with
  | some s => return s
  | none => throw (.cause .noMember)

/-- What a version of the package of a row depends on, or else what the registry tells of it, for some languages
without the dependencies. -/
def rowInfo (c : Client) (l : Language) (versions cacheOnly : Bool) (known : Table String Doc) (r : Sheet.Line) :
    Job (Table String Doc) := do
  let name ← nameOf r
  if versions then
    let some version := (← Package.Row.cell r.cells "version").filter fun v => !v.isEmpty | stop (noVersion r)
    let deps ← c.dependencies name (some version) false cacheOnly
    let old : Table String Doc := ((known.get? name).getD (.obj [])).fieldsOf
    return known.set name (.obj (old.setDefault version deps))
  else if l = .python || l = .java then
    return known.setDefault name (← c.dependencies name none false cacheOnly)
  else return known.setDefault name (← c.metadata name)

/-- What is known about the packages of a list: as it was kept, or else gathered and kept now. -/
def gather (infile cacheDir : String) (l : Language) (versions : Bool := false) (cacheOnly : Bool := true) :
    Job Doc := do
  let file := join cacheDir (base infile ++ "." ++ l.word ++ ".info.json")
  if ← exists? file then return ← readDoc file
  let _ ← content infile
  let c ← Client.forLanguage l (some cacheDir) true
  let sheet ← readSheet infile
  let mut known : Table String Doc := []
  for r in sheet.rows do
    known ← rowInfo c l versions cacheOnly known r
  writePretty file (.obj known)
  return .obj known

/-! ## The graph of what is known -/

def versionNode (name version : String) : Literal :=
  .text (Literal.tuple [.text name, .text version]).render

def latestRelease (releases : List Doc) : Except Fault (Option Doc) := do
  let dated ← releases.mapM fun r => do return (← Time.ofDoc (← r.at "time"), r)
  return ((← sortDescending (fun a b => a.1.lt b.1) dated).head?).map Prod.snd

/-- The packages that a package depends on, from what is known about it. -/
def declared (info : Doc) : Except Fault (List Doc) := do
  match l with
  | .ruby =>
    if !info.truthy then return []
    if !(← info.has "dependencies") then return []
    let deps ← info.at "dependencies"
    if !(← deps.has "runtime") then return []
    (← (← deps.at "runtime").items).mapM fun d => d.at "name"
  | .python | .java =>
    if !info.truthy then return []
    return (← info.keys).map .str
  | .javascript =>
    if !info.truthy then return []
    if !(← info.has "dependencies") then return []
    return match (info.at "dependencies").bind Doc.keys with
      | .ok ks => ks.map .str
      | .error _ => []
  | .php =>
    if !info.truthy then return []
    if !(← info.has "package") then return []
    let package ← info.at "package"
    if !(← package.has "versions") then return []
    let releases ← (← (← package.at "versions").values).filterM fun v => v.has "time"
    match ← latestRelease releases with
    | none => return []
    | some r => return ((← (← r.findD "require" (.obj [])).keys).filter fun k => Text.contains k "/").map .str
  | l => throw (.failure ("Unhandled language: " ++ l.word))

def declaredByPackage (known : Doc) : Except Fault (List (Literal × List Literal)) := do
  (← known.entries).mapM fun (name, info) => do return (.text name, (← declared l info).map .ofDoc)

/-- A version with the versions it needs, unless nothing is known about it. -/
def versionDeclared (name version : String) (deps : Doc) : Except Fault (Option (Literal × List Literal)) := do
  if deps.isNull then return none
  return some (versionNode name version, (← deps.entries).map fun (d, v) => versionNode d v.shown)

/-- Each version of a package, if anything is known about it, with the versions it needs. -/
def declaredByVersion (known : Doc) : Except Fault (List (Literal × List Literal)) := do
  return (← (← known.entries).mapM fun (name, versions) => do
    (← versions.entries).filterMapM fun (version, deps) => versionDeclared name version deps).flatten

def declarations (versions : Bool) (known : Doc) : Except Fault (List (Literal × List Literal)) :=
  if versions then declaredByVersion known else declaredByPackage l known

def asNode (x : Literal) : Except Fault Literal :=
  if !x.isKey then .error (.cause .wrongType)
  else match x with
    | .none => .error (.cause .badValue)
    | x => .ok x

def graphOfDeclared (ds : List (Literal × List Literal)) : Except Fault Graph :=
  ds.foldlM (fun (g : Graph) (p, deps) => do
    let g := g.addNode p
    deps.foldlM (fun (g : Graph) d => do return g.addEdge p (← asNode d)) g) {}

def keepGraph (outfile : String) (ds : List (Literal × List Literal)) : Job Unit := do
  let g ← graphOfDeclared ds
  if !g.isAcyclic then fault .noMember
  writeGraph outfile g

def buildGraph (infile outfile cacheDir : String) (l : Language) (versions : Bool := false) : Job Unit := do
  let known ← gather infile cacheDir l versions
  keepGraph outfile (← declarations l versions known)

/-! ## Parts of graphs -/

def descendants (n : Literal) : Except Fault (List Literal) :=
  if g.hasNode n then .ok ((g.reach n).drop 1) else .error (.cause .badGraph)

def ancestors (n : Literal) : Except Fault (List Literal) :=
  descendants { g with edges := g.edges.map Prod.swap } n

def useCount (name : Option String) : Except Fault Nat :=
  match name with
  | some s => if g.hasNode (.text s) then (ancestors g (.text s)).map List.length else .ok 0
  | none => .ok 0

def partOf (seeds : List Literal) : Except Fault Graph := do
  let below ← seeds.mapM (descendants g)
  return g.restrict (seeds ++ below.flatten)

structure Cut where
  infile : String
  outdir : String
  /-- Number the directories of the parts. -/
  numbered : Bool := false
  parts : Option Int := none
  seedFile : Option String := none
  /-- A program text in which the names of the graph are replaced. -/
  program : Option String := none
deriving Inhabited

/-- The graph to cut and the name of its file without the archive's ending. -/
def Cut.graph (c : Cut) : Job (Graph × String) := do
  if Text.endsWith c.infile ".tgz" then return (← readPackedGraph c.infile, (splitExt c.infile).1)
  else if Text.endsWith c.infile ".pickle" then return (← readGraph c.infile, c.infile)
  else stop (.failure ("Unexpected format/extension of dep graph file: " ++ c.infile))

def seedsIn : Job (List Literal) := do
  (← readSheet seedFile).rows.mapM fun r => do
    return (← Package.Row.cell r.cells "package name").elim Literal.none .text

def partName : String := (splitExt (base seedFile)).1

def Cut.directory : String :=
  if c.numbered then Text.rstripOf c.outdir "/" ++ "0" else c.outdir

def Cut.partFile : String :=
  join c.directory (partName seedFile ++ ".pickle")

def Cut.programFile (program : String) : String :=
  join c.directory (partName seedFile ++ (splitExt (base program)).2)

/-- Writes a program for the part, with the names of the graph and of its file replaced. -/
def Cut.writeProgram (file seedFile program : String) : Job Unit := do
  let text ← readText program
  let renamed := Text.replace text (splitExt (base program)).1 (partName seedFile)
  writeText (c.programFile seedFile program) (Text.replace renamed (base file) (partName seedFile ++ ".pickle"))

/-- Writes the part of a graph that the packages of a list reach, and a program for it. -/
def Cut.writePart (file seedFile : String) : Job Unit := do
  let seeds ← seedsIn seedFile
  ensureDirectory c.directory
  writeGraph (c.partFile seedFile) (← partOf g seeds)
  if let some p := c.program then
    if !p.isEmpty && (← exists? p) then c.writeProgram file seedFile p

/-- Cuts a graph along a list of packages; even parts are refused. -/
def Cut.run : Job Unit := do
  let (g, file) ← c.graph
  match c.parts.filter (· != 0), c.seedFile.filter fun s => !s.isEmpty with
  | some n, _ => if n > 1 then fault .wrongType else fault .assertion
  | none, some seedFile => c.writePart g file seedFile
  | none, none =>
    let parts := c.parts.elim "None" Text.ofInt
    stop (.failure ("Invalid num_outputs " ++ parts ++ " and seedfile " ++ c.seedFile.getD "None" ++ "!"))

end Vetting.Survey
