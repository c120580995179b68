import Vetting.Alert
import Vetting.Registry.Service
import Vetting.Survey.Kind

/-!
# Reading traces

A trace of what containers do is read by a monitor that raises alerts. The alerts of each package's run
are added to the report on that run.
-/

namespace Vetting.Survey

open Registry Job Path

/-! ## Alerts of a trace -/

def replaceRest (word new line : String) : String :=
  match Text.findChars word.toList line.toList with
  | some n => String.ofList (line.toList.take n) ++ new
  | none => line

def replaceRests (word new text : String) : String :=
  Text.join "\n" ((Text.splitOn text "\n").map (replaceRest word new))

def monitorFiles : List String := ["falco_rules.local.yaml", "falco_rules.yaml", "falco.yaml"]

variable (trace source : String)

def setUpMonitor (dir : String) : Job Unit := do
  for name in monitorFiles do
    copyFile (join source name) (join dir name)
  let env ← readText (join source ".env")
  writeText (join dir ".env") (replaceRests "DATADIR=" ("DATADIR=" ++ parent trace) env)
  let composed ← readText (join source "docker-compose-falco.yml")
  let command := "command: falco -A -c /etc/falco/falco.yaml -e " ++ trace
  writeText (join dir "docker-compose-falco.yml")
    (replaceRests "container_name:" ("container_name: " ++ base dir) (replaceRests "command:" command composed))

def alertsIn (text : String) : List Doc := (Text.feedLines text).filterMap Doc.parse?

def startMonitor : Job String := do
  let dir ← temporaryDir "falco-"
  setUpMonitor trace source dir
  return dir

/-- Runs the monitor in its directory and takes it down: what it notes about events, if anything. -/
def watch (dir : String) : Job (Option String) := do
  let compose := ["docker-compose", "-f", "docker-compose-falco.yml"]
  execute "falco alert up" (compose ++ ["up"]) (some dir)
  let events := join dir "events.txt"
  let text ← if ← exists? events then do pure (some (← readText events)) else pure none
  execute "falco alert down" (compose ++ ["down"]) (some dir)
  removeTree dir
  return text

def monitor : Job (List Doc) := do
  let text ← startMonitor trace source >>= watch
  return text.elim [] alertsIn

/-- The alerts for a trace, which is then recorded as processed. -/
def alertsOf (source : String := "../sysdig") (progress : String := "/tmp/interpret_trace.progress") :
    Job (List Doc) := do
  let alerts ← monitor trace source
  appendText progress (trace ++ "\n")
  return alerts

/-! ## Reports on runs -/

def activityOf (report : Doc) : Table String Doc := ((report.field? "process_activity").getD (.obj [])).fieldsOf

def addActivities (old new : Doc) : Doc :=
  let merged := Alert.activityLists.foldl (fun (t : Table String Doc) k =>
    match ((activityOf new).get? k).getD (.arr []) with
    | .arr (x :: xs) => t.modify k (.arr []) fun d => .arr (d.itemsOf ++ x :: xs)
    | _ => t) (activityOf old)
  if merged.isEmpty && (old.field? "process_activity").isNone then old
  else old.setField "process_activity" (.obj merged)

def readRun (file : String) (binary : Bool) : Job Doc := do
  if binary then
    match Message.ofBytes? "DynamicAnalysis" (← readBytes file) with
    | some d => return d
    | none => fault .badMessage
  else readMessage "DynamicAnalysis" file

/-- Writes a report on a run, together with what is there already. -/
def saveRun (file : String) (binary : Bool) (report : Doc) : Job Unit := do
  let report ← if ← exists? file then do pure (addActivities (← readRun file binary) report) else pure report
  if binary then write file (.bytes (Message.toBytes "DynamicAnalysis" report))
  else writeMessage "DynamicAnalysis" file report

def runFile (outdir : String) (r : Alert.Run) : String :=
  join outdir (Package.dynamicFile r.name r.version r.asRoot false true)

def saveRuns (outdir : String) (binary : Bool) (c : Alert.Collection) : Job Unit := do
  for (r, findings) in c do
    saveRun (runFile outdir r) binary (← Alert.report r.asRoot findings)

def readMonitored (l : Language) (outdir : String) (cacheDir : Option String := none) (binary : Bool := false) :
    Job Unit := do
  let alerts ← alertsOf trace
  let c ← Alert.collect alerts
  let _ ← Client.forLanguage l cacheDir true
  saveRuns outdir binary c

structure TraceRequest where
  language : Language
  outdir : String
  cacheDir : Option String := none
  kind : Option TraceKind := none
  traceDir : Option String := none
  name : Option String := none
  version : Option String := none
  binary : Bool := false
  skipFile : Option String := none
deriving Inhabited

namespace TraceRequest

variable (q : TraceRequest)

def skipped : Job (List String) := do
  match q.skipFile.filter fun p => !p.isEmpty with
  | some p =>
    if ← exists? p then return (Text.splitOn (← readText p) "\n").filter fun s => !s.isEmpty
    else return []
  | none => return []

/-- Looks for the traces of the system calls of a package, which cannot be read. -/
def readCalls : Job Unit := do
  let _ ← Client.forLanguage q.language q.cacheDir true
  let some dir := q.traceDir.filter fun p => !p.isEmpty | return
  if !(← exists? dir) then return
  let some name := q.name | fault .noMember
  for asRoot in [false, true] do
    if ← exists? (join dir (Package.traceFile name q.version asRoot)) then
      stop (.failure "not implemented yet!")

def readAllMonitored (skip : List String) : Job Unit := do
  let names ← list (q.traceDir.getD ".")
  let traces ← names.mapM fun n => Client.below q.traceDir n
  for t in traces.filter fun t => !skip.contains t do
    readMonitored t q.language q.outdir q.cacheDir q.binary

def run : Job Unit := do
  let skip ← q.skipped
  match q.kind with
  | some .strace => q.readCalls
  | some .sysdig => q.readAllMonitored skip
  | k => stop (.failure ("Unhandled tracing type: " ++ (k.map TraceKind.word).getD "None" ++ "!"))

end TraceRequest

end Vetting.Survey
