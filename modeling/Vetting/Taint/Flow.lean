import Vetting.Analysis.Input

/-!
# Flows of data

A flow leads from a source over hops to a sink. A report on a package has its flows, and the
functions that are sources and sinks for packages that use it.
-/

namespace Vetting.Taint

structure Flow where
  source : Option Api.Node := none
  hops : List Api.Node := []
  sink : Option Api.Node := none
  /-- The name, weakness and type of a flow, if they are told. -/
  info : Option (String × String × String) := none
deriving Inhabited

def Flow.toDoc (f : Flow) : Doc :=
  .obj (Api.partField "source" (f.source.map Api.Node.toDoc) ++ Api.listField "hops" (f.hops.map Api.Node.toDoc)
    ++ Api.partField "sink" (f.sink.map Api.Node.toDoc)
    ++ Api.partField "info" (f.info.map fun (name, cwe, type) =>
      .obj (Api.textField "name" name ++ Api.textField "cwe" cwe ++ Api.textField "type" type)))

/-- A function through which a source or a sink can be reached. -/
structure Gate where
  node : Api.Node
  reachable : List Api.Node := []
deriving Inhabited

def Gate.toDoc (field : String) (g : Gate) : Doc :=
  .obj (("node", g.node.toDoc) :: Api.listField field (g.reachable.map Api.Node.toDoc))

/-- What was found out about the flows in a package. -/
structure FlowReport where
  flows : List Flow := []
  sources : List Gate := []
  sinks : List Gate := []
deriving Inhabited

def FlowReport.toDoc (r : FlowReport) : Doc :=
  .obj (Api.listField "flows" (r.flows.map Flow.toDoc)
    ++ Api.listField "sources" (r.sources.map (Gate.toDoc "reachable_sources"))
    ++ Api.listField "sinks" (r.sinks.map (Gate.toDoc "reachable_sinks")))

def FlowReport.write (r : FlowReport) (p : String) : Job Unit := Job.writeMessage "ModuleStatic" p r.toDoc

def fileOf (path : String) : Api.FileInfo := { filename := Path.base path, relpath := Path.parent path }

def readResult (p : String) : Job (Option Doc) := do
  match ← Job.attempt (Job.readDoc p) with
  | .ok d => return some d
  | .error f => if f.isOrdinary then return none else Job.stop f

end Vetting.Taint

/-!
## Flows from warnings

Each warning about a Ruby application becomes a flow of which only the sink is known. Warnings that differ
only in where they were raised count once.
-/

namespace Vetting.Taint.Warnings

/-- A warning with its file inside the application, and without what tells equal ones apart. -/
def reduced (w : Doc) : Except Fault Doc := do
  match w with
  | .obj _ =>
    let file ← (← w.at "file").text
    let short := (Text.splitOnMax file "/" 2).getLastD ""
    return ((w.setField "file" (.str short)).setField "fingerprint" .null).setField "location" .null
  | _ => throw (.cause .wrongType)

def keyOf (w : Doc) : Except Fault (List (String × Doc)) := do
  let fields := w.fieldsOf.mergeSort fun a b => Text.le a.1 b.1
  for (_, v) in fields do
    let _ ← v.asKey
  return fields

def sameKey (a b : List (String × Doc)) : Bool := Doc.same (.obj a) (.obj b)

def sinkOf (w : Doc) : Except Fault Api.Node := do
  let line ← w.at "line"
  let file ← w.at "file"
  let input ← w.at "user_input"
  let code ← w.at "code"
  let fullName ← if input.truthy then Message.textValue input else pure ""
  let source ← if code.truthy then Message.textValue code else pure ""
  let info ← if file.truthy then fileOf <$> file.asText else pure {}
  let row ← if line.truthy then Message.wholeValue line else pure 0
  return { fullName, source, range := some { start := some { row, fileInfo := some info } } }

def flowOf (w : Doc) : Except Fault Flow := do
  let sink ← sinkOf w
  let name ← Message.textValue (← w.at "check_name")
  let cwe ← Message.textValue (← w.at "warning_type")
  let type ← Message.textValue (← w.at "confidence")
  return { sink := some sink, info := some (name, cwe, type) }

/-- The flows of warnings; the keys are those of warnings that were seen before. -/
def flowsGo : List (List (String × Doc)) → List Doc → Except Fault (List Flow)
  | _, [] => .ok []
  | seen, w :: ws => do
    let w ← reduced w
    let key ← keyOf w
    if seen.any (sameKey key) then flowsGo seen ws
    else
      let flow ← flowOf w
      return flow :: (← flowsGo (seen ++ [key]) ws)

def flows (result : Doc) : Except Fault (List Flow) := do
  let summary ← result.findD "scan_info" (.obj [])
  if !summary.truthy then return []
  let count ← summary.findD "security_warnings" (.int 0)
  if Doc.same count (.int 0) then return []
  let warnings ← result.findD "warnings" (.arr [])
  let _ ← warnings.size
  flowsGo [] (← warnings.items)

/-- Writes the flows of a result file; if that cannot be read, nothing is written. -/
def reformat (config : Option String) (resultFile outfile : String) : Job Unit := do
  match ← readResult resultFile with
  | none => return
  | some result =>
    let some config := config | Job.fault .wrongType
    let _ ← Job.readMessage "AstLookupConfig" config
    FlowReport.write { flows := ← flows result } outfile

/-- Checks a package as if it were each part of an application. -/
def check (path : String) (config : Option String) (outfile : String) : Job Unit := do
  let dir ← Job.temporaryDir "brakeman-"
  let result ← Job.temporaryFile "tmp" ".json"
  let app := Path.join dir "rails4"
  Job.makeDirectories (Path.join app "app")
  let _ ← Job.absolute path
  Job.execute "brakeman" ["brakeman", "--interprocedural", "-o", result, "-A", app] (some dir)
  Job.removeTree dir
  reformat config result outfile

end Vetting.Taint.Warnings

/-!
## Flows from vulnerabilities

A checker of Python packages reports vulnerabilities: a source, a sink, and the assignments between them.
-/

namespace Vetting.Taint.Vulnerabilities

open Calls.Python (ModuleTree kindOf textOf)

/-- One end of a vulnerability. -/
structure End where
  word : Doc
  line : Doc
  path : Doc
deriving Inhabited

structure Vulnerability where
  source : End
  sink : End
  assignments : Doc
deriving Inhabited

variable (d : Doc) (source : List Char) (k : Known)

def endOf (word : Doc) : Except Fault End := do
  let _ ← d.at "label"
  let line ← d.at "line_number"
  return { word, line, path := ← d.at "path" }

/-- The vulnerability that a document describes, and the files it is about. -/
def vulnerabilityOf : Except Fault (Vulnerability × List Doc) := do
  let source ← d.at "source"
  let sourceWord ← d.at "source_trigger_word"
  let sink ← d.at "sink"
  let sinkWord ← d.at "sink_trigger_word"
  let _ ← d.at "type"
  let assignments ← d.at "reassignment_nodes"
  let files := [← (← source.at "path").asKey, ← (← sink.at "path").asKey]
  let v : Vulnerability := { source := ← endOf source sourceWord, sink := ← endOf sink sinkWord, assignments }
  return (v, files)

def vulnerabilitiesOf (result : Doc) : Except Fault (List (Vulnerability × List Doc)) := do
  (← (← result.at "vulnerabilities").items).mapM vulnerabilityOf

def filesOf (found : List (Vulnerability × List Doc)) : List Doc :=
  (found.flatMap Prod.snd).foldl (fun fs f => if fs.any (Doc.same f) then fs else fs ++ [f]) []

abbrev Sources := List (Doc × (List Char × ModuleTree))

def readSources : List Doc → Job Sources
  | [] => return []
  | d :: ds => do
    let source ← Job.readText (← d.asText)
    let tree ← Analysis.moduleTree source
    return (d, (source.toList, tree)) :: (← readSources ds)

def sourceOf (ss : Sources) (path : Doc) : Except Fault (List Char × ModuleTree) :=
  match ss.find? fun p => Doc.same p.1 path with
  | some p => .ok p.2
  | none => .error (.missingKey path.literal)

def isOn (line : Doc) (t : ModuleTree) : Bool :=
  match t.info? with
  | some i => Doc.same line (.int i.line)
  | none => false

def memberOf? (t : ModuleTree) : Option String := (t.field? "func").bind fun f => f.wordOf? "attr"

/-- The texts of the arguments of a call of a name, if its function is a member of something. -/
def argumentsOf (word : String) (t : ModuleTree) : Except Fault (List String) :=
  match memberOf? t with
  | some m => .ok (if m = word then (t.itemsOf "args").map (textOf source) else [])
  | none => .error (.cause .noMember)

def argumentsAt (tree : ModuleTree) (line : Doc) (word : String) : Except Fault (List String) := do
  let calls := tree.nodes.filter fun t => kindOf t = "Call" && isOn line t
  return (← calls.mapM (argumentsOf source word)).flatten

/-- The last function that has a statement on a line, and the parameters of all of them. -/
def functionAt (tree : ModuleTree) (line : Doc) : Option String × List String :=
  let functions := tree.nodes.filter fun t => kindOf t = "FunctionDef"
  let hits := functions.flatMap fun t => ((t.itemsOf "body").filter (isOn line)).map fun _ => t
  let parameters (t : ModuleTree) : List String :=
    (Text.splitOn (textOf source ((t.field? "args").getD .empty)) ",").map Text.strip
  (hits.getLast?.bind fun t => t.wordOf? "name", hits.flatMap parameters)

def idOf (ids : Table Int String) (name : String) : Int :=
  (ids.filter fun p => Text.contains p.2 name).foldl (fun _ p => p.1) (-1)

def idsOf (apis : List Api.Node) (p : Api.Role → Bool) : Table Int String :=
  Table.ofPairs ((apis.filter fun a => p a.role).map fun a => (a.id, a.fullName))

def nameOf (word : String) : String := Text.replace (Text.replace word "(" "") "[" ""

def spanAt (path : String) (row : Int) : Api.Span :=
  let place : Api.Place := { row, fileInfo := some (fileOf path) }
  { start := some place, finish := some place }

/-- What is told of a function that a word stands for. -/
def calledNode (api : Api.Node) (word : String) (detail : Api.Detail) (arguments : List String)
    (range : Api.Span) : Api.Node :=
  { kind := .functionRef, name := nameOf word, fullName := api.fullName, baseType := api.baseType, id := api.id
    detail := some detail, arguments, range := some range }

def endNode (apis : List Api.Node) (ids : Table Int String) (detail : Api.Node → Api.Detail) (ss : Sources)
    (e : End) : Except Fault Api.Node := do
  let word ← e.word.text
  let some api := apis.find? fun a => a.id = idOf ids (nameOf word) | throw (.cause .exhausted)
  let (source, tree) ← sourceOf ss e.path
  let arguments ← argumentsAt source tree e.line word
  let path ← e.path.asText
  return calledNode api word (detail api) arguments (spanAt path (← Message.wholeValue e.line))

def sourceDetail (a : Api.Node) : Api.Detail :=
  match a.detail with
  | some (.source s) => .source s
  | _ => .source "SOURCE_UNCLASSIFIED"

def sinkDetail (a : Api.Node) : Api.Detail :=
  match a.detail with
  | some (.sink s) => .sink s
  | _ => .sink "SINK_UNCLASSIFIED"

def hopNode : Except Fault Api.Node := do
  let label ← d.at "label"
  let line ← d.at "line_number"
  let path ← d.at "path"
  let name ← Message.textValue label
  let path ← path.asText
  return { name, range := some (spanAt path (← Message.wholeValue line)) }

/-- What is known of the functions of the settings that are sources and sinks. -/
structure Known where
  apis : List Api.Node
  sources : Table Int String
  sinks : Table Int String
deriving Inhabited

def Known.ofConfig (c : Api.Config) : Known :=
  { apis := c.apis, sources := idsOf c.apis (· = .source)
    sinks := idsOf c.apis fun r => r = .sink || r = .danger }

def sourceNode (ss : Sources) (v : Vulnerability) : Except Fault Api.Node :=
  endNode k.apis k.sources sourceDetail ss v.source

def sinkNode (ss : Sources) (v : Vulnerability) : Except Fault Api.Node :=
  endNode k.apis k.sinks sinkDetail ss v.sink

def flowOf (ss : Sources) (v : Vulnerability) : Except Fault Flow := do
  let source ← sourceNode k ss v
  let sink ← sinkNode k ss v
  let hops ← (← v.assignments.items).mapM hopNode
  return { source := some source, hops, sink := some sink }

def gateOf (name : String) (parameters : List String) (node : Api.Node) : Gate :=
  { node := { kind := .functionDecl, name, fullName := "???", baseType := "???", arguments := parameters }
    reachable := [node] }

/-- Adds the functions around the ends of a vulnerability outside of the set-up script. That around the sink is
looked for in the file of the source. -/
def addGates (ss : Sources) (r : FlowReport) (v : Vulnerability) : Except Fault FlowReport := do
  let base (d : Doc) : Except Fault String := do return Path.base (← d.asText)
  if (← base v.source.path) = "setup.py" && (← base v.sink.path) = "setup.py" then return r
  let (source, tree) ← sourceOf ss v.source.path
  match functionAt source tree v.source.line with
  | (some name, parameters) =>
    if name.isEmpty then return r
    let r := { r with sources := r.sources ++ [gateOf name parameters (← sourceNode k ss v)] }
    match functionAt source tree v.sink.line with
    | (some name, parameters) =>
      if name.isEmpty then return r
      return { r with sinks := r.sinks ++ [gateOf name parameters (← sinkNode k ss v)] }
    | (none, _) => return r
  | (none, _) => return r

def reportOf (ss : Sources) (vs : List Vulnerability) : Except Fault FlowReport := do
  vs.foldlM (addGates k ss) { flows := ← vs.mapM (flowOf k ss) }

def reformat (config resultFile : Option String) (outfile : String) : Job Unit := do
  let some resultFile := resultFile | return
  match ← readResult resultFile with
  | none => return
  | some result =>
    let c ← Analysis.readConfig config
    let found ← vulnerabilitiesOf result
    let ss ← readSources (filesOf found)
    let report ← reportOf (Known.ofConfig c) ss (found.map Prod.fst)
    report.write outfile

def wordOf (c : Api.Config) (a : Api.Node) : String := (if c.funcOnly then a.name else a.fullName) ++ "("

def writeWords (config : Option String) (file : String) : Job Unit := do
  let c ← Analysis.readConfig config
  let words (p : Api.Role → Bool) : List String := distinct ((c.apis.filter fun a => p a.role).map (wordOf c))
  let sinks := words fun r => r = .sink || r = .danger
  Job.writePretty file (.obj [("sources", .arr ((words (· = .source)).map .str)),
    ("sinks", .obj (sinks.map fun w => (w, .obj [])))])

def check (path : String) (config : Option String) (outfile : String) : Job Unit := do
  let wordFile ← Job.temporaryFile "tmp" ".pyt"
  writeWords config wordFile
  let result ← Job.temporaryFile "tmp" ".json"
  Job.execute "python3.6 -m pyt" ["python3.6", "-m", "pyt", "-o", result, "-t", wordFile, "-j", "-r", path]
  reformat config (some result) outfile

end Vetting.Taint.Vulnerabilities
