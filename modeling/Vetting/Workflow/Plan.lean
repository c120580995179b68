import Vetting.Literal.Access
import Vetting.Registry.Client

/-!
# Plans of analyses

A plan turns a stored graph of dependencies into a workflow: one task for each package, which runs after the
tasks of the packages that it depends on. A task is made when its package is first met; a package that was met
as a dependency before its own turn gets no order of its own.
-/

namespace Vetting.Workflow

open Job

open Registry (Kind)

/-- The packages of a registry that a plan is for. -/
inductive Part where
  | whole
  | piece (number : String)
  | popular
deriving BEq, DecidableEq, Inhabited

structure Plan where
  registry : Kind
  part : Part
  /-- Whether each version of a package has a task of its own. -/
  versions : Bool := false
deriving BEq, DecidableEq, Inhabited

namespace Plan

variable (p : Plan) (g : Graph)

def pieceMark : String :=
  match p.part with
  | .piece n => "_" ++ n
  | _ => ""

def id : String :=
  match p.part with
  | .popular => p.registry.word ++ ".with_stats.popular"
  | _ => p.registry.word ++ "_static" ++ (if p.versions then "_versions" else "") ++ p.pieceMark

def graphFile : String :=
  let start := "./dags/" ++ p.registry.word ++ (if p.registry = .maven then "" else ".with_stats")
  let rest := match p.part with
    | .popular => ".popular"
    | _ => (if p.versions then ".popular.versions" else "") ++ ".dep_graph" ++ p.pieceMark
  start ++ rest ++ ".pickle"

def registries : List Kind := [.pypi, .npmjs, .rubygems, .maven, .packagist]

def after? (start s : String) : Option String :=
  if Text.startsWith s start then some (String.ofList (s.toList.drop start.length)) else none

def pieceOf? (mark : String) : Option Part :=
  if mark.isEmpty then some .whole else (after? "_" mark).map .piece

def inRegistry? (registry : Kind) (name : String) : Option Plan :=
  if name = registry.word ++ ".with_stats.popular" then some { registry, part := .popular }
  else (after? (registry.word ++ "_static") name).bind fun rest =>
    match after? "_versions" rest with
    | some mark => (pieceOf? mark).map fun part => { registry, part, versions := true }
    | none => (pieceOf? rest).map fun part => { registry, part }

def ofId? (name : String) : Option Plan := registries.findSome? fun r => inRegistry? r name

/-! ## Packages -/

def language : Language :=
  match p.registry with
  | .npmjs => .javascript
  | .rubygems => .ruby
  | .maven => .java
  | .packagist => .php
  | _ => .python

def cleansNames : Bool := p.registry != .pypi && p.registry != .rubygems

def cutsRanges : Bool := p.registry = .rubygems

def skipsUnnamed : Bool := p.registry = .npmjs && !p.versions && p.part != .popular

/-- Whether a version that is a text cannot be analysed: an address, or a path. -/
def refusesVersion (v : String) : Bool :=
  match p.registry with
  | .npmjs => Text.startsWithAny v ["http://", "https://"]
  | .maven | .packagist =>
    Text.startsWithAny v ["http://", "https://"] || v.toList.contains '/' || v.toList.contains '+'
  | _ => false

def checksVersions : Bool := p.versions && (p.registry != .pypi && p.registry != .rubygems)

/-- A package as a node of the graph tells it. -/
structure Named where
  /-- What the package is known by. -/
  key : String
  name : Literal
  version : Literal := .none
deriving Inhabited

def cutRange (name : Literal) : Except Fault Literal :=
  if !p.cutsRanges then .ok name
  else match name with
    | .text s => .ok (.text ((Text.splitOn s ">=").headD s))
    | .none | .bool _ | .int _ => .error (.cause .wrongType)
    | other => do if ← other.has ">=" then throw (.cause .noMember) else return other

/-- The package that a node's text tells. -/
def named (s : String) : Except Fault Named :=
  if p.versions then do
    match ← (← Literal.parse s).items with
    | [name, version] => return { key := s, name := ← p.cutRange name, version }
    | _ => throw (.cause .badValue)
  else do
    let name ← p.cutRange (.text s)
    return { key := name.shown, name }

def skips (n : Named) : Except Fault Bool :=
  if p.checksVersions then
    match n.version with
    | .text v => .ok (p.refusesVersion v)
    | _ => .error (.cause .noMember)
  else .ok (p.skipsUnnamed && n.key.isEmpty)

def taskName (name : Literal) : Except Fault String :=
  if !p.cleansNames then .ok name.shown
  else match name with
    | .text s => .ok (String.ofList (Package.dotInvalid s.toList))
    | _ => .error (.cause .wrongType)

def task (n : Named) : Except Fault Task := do
  let name ← p.taskName n.name
  let l := p.language.word
  let rest := " -c /home/maloss/config/astgen_" ++ l
    ++ "_smt.config -d /home/maloss/metadata -o /home/maloss/result -l " ++ l
  let options := if p.versions || p.registry = .maven then "" else "--ignore_dep_version "
  return {
    id := if p.versions then name ++ ".." ++ n.version.shown else name
    command := "cd /home/maloss/src/ && python main.py astfilter " ++ options ++ "-n " ++ n.name.shown
      ++ (if p.versions then " -v " ++ n.version.shown else "") ++ rest
    timeout := 7200 }

/-! ## Drafts -/

abbrev Draft := Table String Task

def ensure (d : Draft) (n : Named) : Except Fault Draft :=
  if d.has n.key then .ok d else (p.task n).map fun t => d ++ [(n.key, t)]

def idsOf (d : Draft) (keys : List String) : List String := keys.filterMap fun k => (d.get? k).map Task.id

def dependencyText (x : Literal) : Except Fault String :=
  match x with
  | .text s => .ok s
  | other => if p.versions then .error (.cause .badValue) else .ok other.shown

/-- Adds the tasks of dependencies: the draft, their keys, and what stopped the work. -/
def addDependencies (p : Plan) (key : String) :
    Draft → List String → List Literal → Draft × List String × Option Fault
  | d, keys, [] => (d, keys, none)
  | d, keys, x :: xs =>
    let step : Except Fault (Draft × List String) := do
      let n ← p.named (← p.dependencyText x)
      if (← p.skips n) || n.key == key then return (d, keys)
      return (← p.ensure d n, addNew keys n.key)
    match step with
    | .ok (d, keys) => addDependencies p key d keys xs
    | .error f => (d, keys, some f)

/-- The package of a node with its dependencies, unless it is left out or has a task already. -/
def pending (d : Draft) (node : String) : Except Fault (Option (Named × List Literal)) := do
  let n ← p.named node
  if !g.hasNode (.text node) then throw (.cause .badGraph)
  if ← p.skips n then return none
  return if d.has n.key then none else some (n, g.successors (.text node))

/-- Takes up a node: the draft after it, and what stopped the work. -/
def visit (d : Draft) (node : String) : Draft × Option Fault :=
  match p.pending g d node with
  | .error f => (d, some f)
  | .ok none => (d, none)
  | .ok (some (n, dependencies)) =>
    match p.ensure d n with
    | .error f => (d, some f)
    | .ok d =>
      let (d, keys, stopped) := p.addDependencies n.key d [] dependencies
      match stopped with
      | some f => (d, some f)
      | none => (d.modify n.key default fun t => { t with upstream := some (idsOf d keys) }, none)

def visitAll (p : Plan) (g : Graph) : Draft → List String → Draft × Option Fault
  | d, [] => (d, none)
  | d, node :: nodes =>
    match p.visit g d node with
    | (d, none) => visitAll p g d nodes
    | stopped => stopped

def draft : Draft × Option Fault := p.visitAll g [] (g.names.map Literal.shown)

def defaults : Doc := .obj [
  ("owner", .str "airflow"), ("depends_on_past", .bool false), ("start_date", .str "2019-01-01T00:00:00"),
  ("email", .arr [.str "airflow@example.com"]), ("email_on_failure", .bool false),
  ("email_on_retry", .bool false), ("retries", .int 1), ("retry_delay", .int 300), ("priority_weight", .int 10)]

def run : Job Unit := do
  let w : Workflow := { id := p.id, defaults, schedule := .null }
  let earlier := (← get).log.workflows
  note fun l => { l with workflows := earlier ++ [w] }
  let (d, stopped) := p.draft (← readGraph p.graphFile)
  note fun l => { l with workflows := earlier ++ [{ w with tasks := d.values }] }
  if let some f := stopped then stop f

end Plan

def required (name default : String) : Job String := do
  match ← environment? name with
  | none => stop (.missingKey (Text.quoted name))
  | some v => return if v.isEmpty then default else v

/-- Makes the user that the environment tells, and ends the program. -/
def createUser : Job Unit := do
  let name ← required "AIRFLOW__WEBSERVER__USERNAME" "airflow"
  let email ← required "AIRFLOW__WEBSERVER__EMAIL" "airflow@example.com"
  let password ← required "AIRFLOW__WEBSERVER__PASSWORD" "AirflowPassword"
  printLine ("creating user " ++ name ++ ", email " ++ email ++ ", password " ++ password)
  noteCall (.addUser (.str name) (.str email) (.str password))
  noteCall .commit
  noteCall .close
  stop (.exit .none)

end Vetting.Workflow
