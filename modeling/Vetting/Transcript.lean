import Vetting.Registry.Client
import Vetting.Trace

/-!
# Transcripts

What a step did to the host: the commands it ran, what it asked the web and the container service,
the files it made, changed or deleted, and what it printed.
-/

namespace Vetting.Transcript

open Text Doc

def rootDir : String := "/$W"

def programDir : String := "/$R"

def unfill (s : String) : String := replace (replace s rootDir "$W") programDir "$R"

mutual

/-- Changes a document and all its parts, the parts first. -/
def revise (f : Doc → Doc) : Doc → Doc
  | .arr xs => f (.arr (reviseAll f xs))
  | .obj fs => f (.obj (reviseIn f fs))
  | d => f d

def reviseAll (f : Doc → Doc) : List Doc → List Doc
  | [] => []
  | d :: ds => revise f d :: reviseAll f ds

def reviseIn (f : Doc → Doc) : List (String × Doc) → List (String × Doc)
  | [] => []
  | (k, v) :: fs => (k, revise f v) :: reviseIn f fs

end

def mapTexts (f : String → String) : Doc → Doc := revise fun
  | .str s => .str (f s)
  | .obj fs => .obj (fs.map fun (k, v) => (f k, v))
  | d => d

/-! ## Messages in transcripts

Two kinds of messages hold lists whose order means nothing. In transcripts they are sorted, so that
equal findings have equal transcripts.
-/

def sortFields : Doc → Doc := revise fun
  | .obj fs => .obj (fs.mergeSort fun a b => le a.1 b.1)
  | d => d

def sortKey (d : Doc) : String := (sortFields d).write

def sortBy {α : Type} (key : α → String) (xs : List α) : List α :=
  ((xs.map fun x => (key x, x)).mergeSort fun a b => le a.1 b.1).map Prod.snd

def sortDocs (ds : List Doc) : List Doc := sortBy sortKey ds

def sortTexts : Doc → Doc := revise fun
  | .arr xs => .arr (((xs.mapM str?).map fun ss => (sort ss).map .str).getD xs)
  | d => d

def sortRows (s : String) : String :=
  match feedLines s with
  | [] => ""
  | first :: rest => join "" (first :: sort rest)

def changeField (k : String) (f : Doc → Doc) : Doc → Doc
  | .obj fs => .obj (fs.map fun p => if p.1 == k then (p.1, f p.2) else p)
  | d => d

def changeItems (f : List Doc → List Doc) : Doc → Doc
  | .arr xs => .arr (f xs)
  | d => d

def fileOf (d : Doc) : String :=
  (((((d.field? "range").bind (·.field? "start")).bind (·.field? "file_info")).bind
    (·.field? "file")).bind str?).getD ""

def shownMessage (shape : String) (d : Doc) : Doc :=
  if shape = "PkgAstResults" then
    changeField "pkgs" (changeItems fun ps => ps.map (changeField "api_results" (changeItems (sortBy fileOf)))) d
  else if shape = "DynamicAnalysis" then
    changeField "process_activity" (fun p => match p with
      | .obj fs => .obj (fs.map fun (k, v) => (k, changeItems sortDocs v))
      | p => p) d
  else d

/-! ### Graphs -/

/-- The document of a graph: nodes and edges sorted by name. -/
def graphDoc (g : Graph) : Doc :=
  let nodes := (g.nodes.map fun p => (p.1.shown, p.2)).mergeSort fun a b => le a.1 b.1
  let edges := (g.edges.map fun e => (e.1.shown, e.2.shown)).mergeSort fun a b =>
    lt a.1 b.1 || (a.1 == b.1 && le a.2 b.2)
  .obj [
    ("nodes", .arr (nodes.map fun (n, t) => .arr [.str n, .obj (t.map fun (k, v) => (k, v.toDoc))])),
    ("edges", .arr (edges.map fun (a, b) => .arr [.str a, .str b]))]

/-! ### Files -/

/-- How a file is shown. -/
inductive Showing where
  | text
  | sortedLines
  | json
  | graph
  | message (shape : String) (binary : Bool)
deriving BEq, DecidableEq, Inhabited

def Showing.ofName (name : String) : Showing :=
  if endsWithAny name [".astgen.txt", ".astfilter.txt"] then .message "PkgAstResults" false
  else if endsWith name ".taint.txt" then .message "ModuleStatic" false
  else if endsWith name ".dynamic.txt" then .message "DynamicAnalysis" false
  else if endsWith name ".flatten_dep.requirement" then .sortedLines
  else if endsWithAny name [".json", ".stats"] then .json
  else if endsWithAny name [".pickle", ".p"] then .graph
  else .text

def Showing.ofWord (w : String) : Showing :=
  if w = "text" then .text
  else if startsWith w "binary:" then .message (String.ofList (w.toList.drop 7)) true
  else .message w false

def plainText : Content → String
  | .text s => s
  | .bytes bs => lossy bs
  | .graph .. => ""

/-- What is sorted before it is shown because its order means nothing. -/
structure Sorting where
  texts : Bool := false
  rows : Bool := false
deriving BEq, DecidableEq, Inhabited

def showAs (o : Sorting) (s : Showing) (c : Content) : Option Doc :=
  match s, c with
  | .text, c => if o.rows then some (.obj [("text", .str (sortRows (unfill (plainText c))))]) else none
  | .sortedLines, c => some (.obj [("text", .str (join "\n" (sort (splitOn (unfill (plainText c)) "\n"))))])
  | .json, c => (parse? (plainText c)).map fun d =>
      .obj [("json", (if o.texts then sortTexts else id) (mapTexts unfill d))]
  | .graph, .graph g _ => some (.obj [("graph", mapTexts unfill (graphDoc g))])
  | .graph, _ => none
  | .message shape false, c =>
    (Message.ofText? shape (plainText c)).map fun d =>
      .obj [("proto", mapTexts unfill (shownMessage shape d))]
  | .message shape true, c =>
    let bytes := match c with
      | .bytes bs => bs
      | .text s => Job.bytesOf s
      | .graph .. => []
    (Message.ofBytes? shape bytes).map fun d => .obj [("proto", mapTexts unfill (shownMessage shape d))]

def showContent (o : Sorting) (s : Showing) (c : Content) : Doc :=
  (showAs o s c).getD (.obj [("text", .str (unfill (plainText c)))])

def isShown (path : String) : Bool :=
  Path.isBelow path rootDir && !Path.isBelow path (rootDir ++ "/tmp") && !endsWith path ".log"

def shownPath (path : String) : String := Path.relative path (rootDir ++ "/run")

def fileAt (h : Host) (p : String) : Option Content :=
  match h.files.get? p with
  | some (.file c) => some c
  | _ => none

def changedFiles (o : Sorting) (types : Table String Showing) (before after : Host) : List (String × Doc) :=
  let changed := after.files.filterMap fun (p, e) =>
    match e with
    | .directory => none
    | .file c =>
      if isShown p && fileAt before p != some c then
        let name := shownPath p
        let o := { o with rows := o.rows && endsWith name ".csv" }
        some (name, showContent o ((types.get? name).getD (.ofName name)) c)
      else none
  let deleted := before.files.filterMap fun (p, e) =>
    match e with
    | .directory => none
    | .file _ => if isShown p && (fileAt after p).isNone then some (shownPath p, null) else none
  changed ++ deleted

/-! ### The log -/

def commandDoc (c : CommandRun) : Doc :=
  let words := match c.words with
    | .line s => str s
    | .list ws => .arr (ws.map ofStr?)
  let names := if c.label = "call" || c.label = "run" then ["COMPOSE_HTTP_TIMEOUT"]
    else ["PYTHONPATH", "GEM_HOME"]
  .obj ([("cmd", Doc.str c.label), ("args", words)] ++ (match c.cwd with | some s => [("cwd", Doc.str s)] | none => [])
    ++ (match c.timeout with | some n => [("timeout", Doc.int n)] | none => [])
    ++ (match c.env with
      | some env => [("env", Doc.obj ((env.filter fun p => names.contains p.1).map fun (k, v) => (k, .str v)))]
      | none => []))

def dockerDoc : DockerCall → Doc
  | .list o => .arr [.str "list", .obj o]
  | .run image o => .arr [.str "run", .str image, .obj o]
  | .stop name o => .arr [.str "stop", .str name, .obj o]
  | .remove name o => .arr [.str "remove", .str name, .obj o]

def callDoc : OutsideCall → Doc
  | .sleep n => .arr [.str "sleep", .int n]
  | .kill line => .arr [.str "kill", .str line]
  | .crontab user jobs => .arr [.str "crontab", .str user, .arr (jobs.map fun j =>
      .arr [.str j.command, .str j.comment, (j.minutes.map int).getD .null])]
  | .celery name broker backend => .arr [.str "Celery", name, broker, backend]
  | .config values => .arr [.str "config", .obj values]
  | .applyAsync tasks => .arr [.str "apply_async", .arr (sortDocs (tasks.map fun (t, o) => .arr [.str t, o]))]
  | .addUser name email password => .arr [.str "session.add", name, email, password]
  | .commit => .arr [.str "session.commit"]
  | .close => .arr [.str "session.close"]

def workflowDoc (w : Workflow) : Doc :=
  .obj [("id", .str w.id), ("default_args", w.defaults), ("schedule", w.schedule),
    ("tasks", .arr (w.tasks.map fun t => .obj [("id", .str t.id), ("command", .str t.command),
      ("timeout", .int t.timeout),
      ("upstream", match t.upstream with
        | none => .null
        | some ids => .arr ((sort ids).map .str))]))]

/-- The log as a transcript shows it: only what is not empty. -/
def logFields (l : Log) : List (String × Doc) :=
  let listed (k : String) (ds : List Doc) : List (String × Doc) :=
    if ds.isEmpty then [] else [(k, mapTexts unfill (.arr ds))]
  listed "commands" (l.commands.map commandDoc) ++ listed "requests" (l.requests.map .str)
    ++ listed "docker" (l.docker.map dockerDoc) ++ listed "calls" (l.calls.map callDoc)
    ++ listed "dags" (l.workflows.map workflowDoc)
    ++ (if l.output.isEmpty then [] else [("stdout", Doc.str (unfill l.output))])

/-- What is known of a traced process that made calls and may have been renamed. -/
def tracedDoc (pid : Int) (name newName : Option String) (calls : List String) : Doc :=
  let p : Trace.Process := calls.foldl Trace.Process.add { pid, name }
  .obj [("pid", .int p.pid), ("name", ofStr? (newName.or p.name)), ("entries", .arr (p.calls.map fun c =>
      .arr [.str c.name, ofStr? (c.category.map Trace.Category.label)])),
    ("child_pids", .arr []), ("sockets", .obj []), ("files", .obj []), ("operations", .obj [])]

/-! ### Steps -/

/-- What a step came to. -/
structure StepRecord where
  outcome : Except Fault Doc
  log : List (String × Doc)
  files : List (String × Doc)
deriving Inhabited

def runStep (o : Sorting) (types : Table String Showing) (cwd : Option String) (j : Job Doc) (h : Host) :
    StepRecord × Host :=
  let h := { h with log := {}, commandCount := 0 }
  let home := h.cwd
  let placed : Job Doc := do
    if let some dir := cwd then
      let p ← Job.absolute dir
      if !(← Job.isDirectory p) then Job.fault .noFile
      modify fun h => { h with cwd := p }
    j
  let (outcome, after) := placed.runOn h
  let after := { after with cwd := home }
  ({ outcome := outcome.map (mapTexts unfill), log := logFields after.log
     files := changedFiles o types h after }, after)

end Vetting.Transcript
