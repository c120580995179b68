import Vetting.Command.Commands
import Vetting.Package.Row

/-!
# Running the detector

The detector reads a list of packages, leaves out those that are done, and inspects the others, one
after another or through the queue.
-/

/-!
## Setting up the detector

The program that watches packages has to be at work, containers that are left over are removed, and the
workers of a queue have to answer.
-/

namespace Vetting.Detector

open Job Package

def image : String := "malossscan/maloss"

def giveUp {α : Type} : Job α := stop (.exit (.number 1))

/-- The file of settings at a path; a file that cannot be opened says nothing. -/
def readSettings (path : String) : Job Settings.File := do
  if !(← isFile path) then return {}
  match Settings.File.read (← readText path) with
  | .ok f => return f
  | .error e => stop (.failure ("Error parsing " ++ path ++ ": " ++ e.message path))

def ownContainers : List (String × Doc) :=
  [("filters", .obj [("ancestor", .str image)]), ("all", .bool true)]

def prune : Job Unit := do
  for c in ← containers ownContainers do
    removeContainer c

def queueConfig : List (String × Doc) :=
  [("CELERY_TASK_SERIALIZER", .str "json"), ("CELERY_RESULT_SERIALIZER", .str "json"),
    ("CELERY_ACCEPT_CONTENT", .arr [.str "json"]), ("CELERY_ENABLE_UTC", .bool true),
    ("CELERY_IGNORE_RESULT", .bool false)]

def queueState : Job (Option String) := do
  match (← get).celery with
  | some state => return state
  | none => fault .noImport

variable (s : Settings) (p : Subject) (command : String) (w : Workers) (file : String)

def openQueue : Job Unit := do
  noteCall (.celery (.str "celery_tasks") (Doc.ofStr? s.broker) (Doc.ofStr? s.backend))
  noteCall (.config queueConfig)

def checkWorkers : Job Unit := do
  match (← get).celery with
  | none => giveUp
  | some state =>
    openQueue s
    match state with
    | some "stats" | some "ping" | some "broken" => return
    | _ => giveUp

def checkTracing : Job Unit := do
  match s.tracing with
  | some "Sysdig" =>
    if !s.isQueued || (← isRunning "celery") then
      if !(← isRunning "sysdig") then giveUp
      prune
  | some "Strace" | none => return
  | some _ => giveUp

def setup (mode : String) (path : String := "config") : Job Settings := do
  let f ← readSettings path
  let s ← Settings.ofFile f mode
  let s := { s with
    metadataDir := (← environment? "METADATA_DIR").or s.metadataDir
    resultDir := (← environment? "RESULT_DIR").or s.resultDir }
  checkTracing s
  if !s.queuing.any (fun q => !q.isEmpty) then return s
  if !s.isQueued then giveUp
  let s := { s with
    broker := some (Settings.address f "CELERY_BROKER_URL" "amqp://")
    backend := some (Settings.address f "CELERY_RESULTS_BACKEND" "rpc://") }
  if mode != "Celery" then checkWorkers s
  return s

/-! ## Inspecting one package

One inspection runs the program on one package: some kinds as a shell command beside the detector,
others in a container of their own, without and with all rights.
-/

open Command (Mode)

structure Subject where
  name : Option String
  language : Option String
  version : Option String := none
deriving BEq, DecidableEq, Inhabited

namespace Subject

variable (p : Subject)

def words : String := "-n " ++ shown p.name ++ " -l " ++ shown p.language

def versionWords : String :=
  match p.version.filter fun v => !v.isEmpty with
  | some v => " -v " ++ v
  | none => ""

def containerStart : Except Fault String :=
  match p.name with
  | some n => containerPrefix n p.version
  | none => .ok ("None.." ++ shown p.version ++ "..")

def container (job : String) : Except Fault String := p.containerStart.map (· ++ job)

end Subject

/-- A directory for a language, or for a package of it, which is made if it is not there. -/
def directoryFor (base : Option String) (language name : Option String) : Job String := do
  let some base := base | fault .wrongType
  let dir := Path.join base (shown language)
  let dir ← match name.filter fun n => !n.isEmpty with
    | some n => do pure (Path.join dir (String.ofList (← Package.containerName n.toList)))
    | none => pure dir
  if !(← exists? dir) then makeDirectories dir
  return dir

/-! ### Beside the detector -/

def runBeside (line : String) : Job Unit :=
  orElse (shell line) fun f => if f = .cause .commandFailed then pure () else stop f

def getMetadata : Job Unit := do
  let dir ← directoryFor s.metadataDir p.language none
  runBeside ("python main.py get_metadata " ++ p.words ++ " -c " ++ dir ++ " --isolate_pkg_info" ++ p.versionWords)

def apiConfig : String := "/home/maloss/config/astgen.config"

def runResult (p : Subject) (versionWords : String) : Job Unit := do
  let metadata ← directoryFor s.metadataDir p.language none
  let result ← directoryFor s.resultDir p.language none
  runBeside ("python main.py " ++ command ++ " " ++ p.words ++ " -d " ++ metadata ++ " -o " ++ result ++ " -c "
    ++ apiConfig ++ versionWords)

def compare : Job Unit := runResult s "compare_ast" p ""

def filterLocal : Job Unit :=
  runResult s "astfilter --ignore_dep" p p.versionWords

def taintLocal : Job Unit := runResult s "taint --ignore_dep" p p.versionWords

/-! ### In containers -/

def boundMetadata : String := "/home/maloss/metadata"

def boundResult : String := "/home/maloss/result"

def volume (bound : String) : Doc := .obj [("bind", .str bound), ("mode", .str "rw")]

def runInside (name : String) (volumes : Table String Doc) (more : List (String × Doc) := []) : Job Unit :=
  runContainer image ([("command", Doc.str command), ("name", .str name), ("volumes", .obj volumes),
      ("remove", .bool true)] ++ more
    ++ (match s.memoryLimit with
      | some m => [("mem_limit", Doc.str m)]
      | none => []))

/-- Gets the dependencies of a package, in a container or beside the detector. -/
def getDependencies (beside : Bool := false) : Job Unit := do
  if beside then
    let dir ← directoryFor s.metadataDir p.language none
    runBeside ("python main.py get_dep " ++ p.words ++ " -c " ++ dir ++ " --isolate_pkg_info" ++ p.versionWords)
  else
    let name ← p.container "get_dep"
    let dir ← directoryFor s.metadataDir p.language p.name
    runInside s ("python main.py get_dep " ++ p.words ++ " -c " ++ boundMetadata ++ p.versionWords) name
      [(dir, volume boundMetadata)]

def runTwice (p : Subject) (tail job : String) (volumes : Table String Doc) (more : List (String × Doc)) :
    Job Unit := do
  let line := "python main.py " ++ command ++ " " ++ p.words ++ " -c " ++ boundMetadata ++ " -o " ++ boundResult
  runInside s (line ++ p.versionWords ++ tail) (← p.container job) volumes more
  runInside s (line ++ " -s" ++ p.versionWords ++ tail) (← p.container (job ++ "_sudo")) volumes more

def install (s : Settings) (p : Subject) : Job Unit := do
  let _ ← p.containerStart
  let metadata ← directoryFor s.metadataDir p.language p.name
  let volumes := [(metadata, volume boundMetadata)]
  if s.tracing == some "Strace" then
    getDependencies s p
    let result ← directoryFor s.resultDir p.language p.name
    runTwice s "install" p " -t" "i" (Table.set volumes result (volume boundResult))
      [("cap_add", .arr [.str "SYS_PTRACE"])]
  else runTwice s "install" p "" "i" volumes []

def exercise : Job Unit := do
  let _ ← p.containerStart
  let metadata ← directoryFor s.metadataDir p.language p.name
  if s.tracing == some "Strace" then stop (.failure "Strace support is deprecated!")
  runTwice s "dynamic" p "" "d" [(metadata, volume boundMetadata)] []

def stopContainers : Job Unit := do
  let found ← containers [("filters", .obj [("name", .str (← p.containerStart))])]
  for c in found do
    orElseOrdinary (do
      stopContainer c [("timeout", .int s.dockerTimeout)]
      removeContainer c) fun _ => pure ()

/-- Inspects a package in a mode, if the mode is about packages. -/
def inspect? (mode : Mode) (p : Subject) (beside : Bool) : Option (Job Unit) :=
  match mode with
  | .metadata => some (getMetadata s p)
  | .dependency => some (getDependencies s p beside)
  | .compare => some (compare s p)
  | .astfilterLocal => some (filterLocal s p)
  | .taintLocal => some (taintLocal s p)
  | .install => some (install s p)
  | .dynamic => some (exercise s p)
  | .crawlWebsite => none

def crawlSite : Job Unit := stop (.failure "Not implemented yet!")

/-!
## Workers

Workers load their settings once. One whose inspection fails stops the containers of the package and writes
its name into the file of failures.
-/

def taskName (m : Mode) : String := m.command ++ "_worker"

/-- The workers, who load their settings when they are first needed. -/
def loadWorkers : Job Workers := do
  match (← get).workers with
  | some w => return w
  | none =>
    let _ ← queueState
    let settings ← setup "Celery"
    if settings.backend.isNone then fault .noMember
    openQueue settings
    let w : Workers := { settings }
    modify fun h => { h with workers := some w }
    return w

def startLog : Job Unit := modify fun h => { h with workers := h.workers.map fun w => { w with logging := true } }

def noteFailure (line : Except Fault String) : Job Unit := do
  if let some file := s.failureFile.filter fun f => !f.isEmpty then
    if ← exists? (Path.parent file) then
      appendText file ""
      appendText file ((← line) ++ "\n")

def leavesContainers (m : Mode) (beside : Bool) : Bool :=
  match m with
  | .dependency => !beside
  | .install | .dynamic => true
  | _ => false

def recover (cleanUp : Job Unit) (line : Except Fault String) : Job Doc := do
  if !w.logging then fault .noMember
  orElseOrdinary cleanUp fun _ => pure ()
  noteFailure w.settings line
  return .int 0

def workOn (m : Mode) (p : Subject) (beside : Bool) (work : Job Unit) : Job Doc :=
  orElseOrdinary (do
    work
    return .null) fun _ =>
    recover w (if leavesContainers m beside then stopContainers w.settings p else pure ()) (match p.name with
        | some n => .ok n
        | none => .error (.cause .wrongType))

def crawlWork : Job Doc :=
  orElseOrdinary (do
    crawlSite
    return .null) fun _ => recover w (pure ()) (.error (.cause .unboundName))

/-! ## Running the detector -/

/-- The packages of a list, and whether some have versions. -/
structure Packages where
  subjects : List Subject
  withVersion : Bool
deriving BEq, DecidableEq, Inhabited

/-- The package in a row of a list; an empty version is none. -/
def subjectOf (r : Table String (Option String)) : Except Fault Subject := do
  let cell (k : String) : Except Fault (Option String) :=
    match r.get? k with
    | some v => .ok v
    | none => .error (.missingKey (Text.quoted k))
  let version := (← cell "version").filter fun v => !v.isEmpty
  return { name := ← cell "package name", version, language := ← cell "language" }

def namesDone (text : String) : List String :=
  (Text.feedLines text).map fun l => String.ofList (l.toList.takeWhile (· != ':'))

/-- Reads a list of packages without those that are done. -/
def readPackages (skipFile : Option String := none) : Job Packages := do
  let subjects ← (← readSheet file).rows.mapM fun r => do subjectOf r.cells
  let withVersion := subjects.any fun p => p.version.isSome
  match skipFile.filter fun f => !f.isEmpty with
  | none => return { subjects, withVersion }
  | some skip =>
    if !(← exists? skip) then return { subjects, withVersion }
    let done := namesDone (← readText skip)
    return { subjects := subjects.filter fun p => !p.name.any done.contains, withVersion }

def Packages.check (ps : Packages) (p : Subject) : Job Unit := do
  if ps.withVersion && p.version.isNone then fault .badValue

def packageMode : Job Mode :=
  match Mode.all.find? fun m => m.label == s.mode && m != .crawlWebsite with
  | some m => return m
  | none => stop (.failure ("Unhandled mode: " ++ s.mode))

def enqueue (ps : Packages) (beside : Bool) : Job Unit := do
  let _ ← queueState
  let m ← packageMode s
  let _ ← loadWorkers
  let tasks ← ps.subjects.mapM fun p => do
    ps.check p
    return (taskName m, Doc.obj [("pkgname", Doc.ofStr? p.name), ("language", Doc.ofStr? p.language),
      ("pkgversion", Doc.ofStr? p.version), ("native", .bool beside)])
  noteCall (.applyAsync tasks)

def runPackages (skipFile : Option String := none) (beside : Bool := false) : Job Unit := do
  if !(← exists? file) then giveUp
  let ps ← readPackages file skipFile
  if ps.subjects.isEmpty then giveUp
  if s.isQueued then enqueue s ps beside
  else
    for p in ps.subjects do
      ps.check p
      match inspect? s (← packageMode s) p beside with
      | some work => work
      | none => pure ()

def readAddresses : Job (List (Option String)) := do
  (← readSheet file).rows.mapM fun r =>
    match r.cells.get? "url" with
    | some v => return v
    | none => stop (.missingKey (Text.quoted "url"))

def runCrawl (skipFile : Option String := none) : Job Unit := do
  if !(← exists? file) then giveUp
  let all ← readAddresses file
  let wanted ← match skipFile.filter fun f => !f.isEmpty with
    | none => pure all
    | some skip => do
      if !(← exists? skip) then pure all
      else do
        let done ← readAddresses skip
        pure (distinct (all.filter fun u => !done.contains u))
  if s.isQueued then
    let _ ← queueState
    let _ ← loadWorkers
    noteCall (.applyAsync (wanted.map fun u =>
      (taskName .crawlWebsite, .obj [("url", Doc.ofStr? u)])))
  else
    for _ in wanted do
      crawlSite

def run (args : List String) : Job Unit := do
  let (m, values) ← Command.readDetector [] args
  let s ← setup m.label
  let value (i : Nat) : Doc := (values[i]?).getD .null
  let file := (value 0).strD ""
  let skip := (value 1).str?
  match m with
  | .crawlWebsite => runCrawl s file skip
  | _ => runPackages s file skip (value 2).truthy

end Vetting.Detector
