import Vetting.Detector

/-!
# The scheduler

Starts and stops the workers of the queue and the program that watches packages, moves finished traces away,
removes containers that run for too long, and starts everything anew if things look bad.
-/

namespace Vetting

open Job Text

structure Scheduler where
  directory : String
  file : String
deriving BEq, DecidableEq, Inhabited

namespace Scheduler

/-! ## The watching program -/

def isWatching : Job Bool := isRunning "sysdig"

variable (s : Scheduler) (processes : Int) (user : String)

def watchDirectory : String := Path.join s.directory "../sysdig"

def startWatching : Job Unit :=
  orElseOrdinary (do
    let _ ← call ["docker-compose", "up", "-d"] s.watchDirectory) fun _ => pure ()

def stopWatching : Job Unit :=
  orElseOrdinary (do
    let env := (← get).env.set "COMPOSE_HTTP_TIMEOUT" "600"
    let _ ← call ["docker-compose", "down"] s.watchDirectory env) fun _ => pure ()

def awaitStart : Nat → Job Unit
  | 0 => pure ()
  | n + 1 => do
    if !(← isWatching) then
      sleep 5
      awaitStart n

def waitWatching (tries : Int := 50) : Job Unit := do
  awaitStart tries.toNat
  if !(← isWatching) then stop (.failure "Failed starting sysdig!")

def ownAddress : String := "10.0.0.9"

def isInactive (path : String) (seconds : Int) : Job Bool := do
  let h ← get
  match h.ages.get? (← absolute path) with
  | some age => return age * 1000000 + h.elapsed > seconds * 1000000
  | none => return false

def traceNames (dir : Option String) : Job (List String) := list (dir.getD ".")

/-- Moves finished traces away. Whether any are left, as far as the watching program is at work. -/
def saveTraces (seconds : Int := 3600) : Job Bool := do
  let traces ← environment? "TRACEDIR"
  let some target ← environment? "DATADIR" | fault .wrongType
  if !(← exists? target) then makeDirectories target
  for name in ← traceNames traces do
    let some dir := traces | fault .wrongType
    let path := Path.join dir name
    if ← isInactive path seconds then move path (Path.join target (name ++ "." ++ ownAddress))
  return !((← traceNames traces).isEmpty && (← isWatching))

def stopPatiently (c : Container) : Job Unit :=
  orElseOrdinary (stopContainer c) fun _ => stopContainer c [("timeout", .int 600)]

/-- Removes a container. Whether it is gone: one that is dead or being removed is not. -/
def removeContainer (c : Container) : Job Bool := do
  if c.status = "running" then
    orElseOrdinary (do
      stopPatiently c
      Job.removeContainer c) fun _ => pure ()
    return true
  else if ["created", "exited", "restarting", "paused"].contains c.status then
    orElseOrdinary (Job.removeContainer c) fun _ => pure ()
    return true
  else if c.status = "removing" || c.status = "dead" then return false
  else stop (.failure ("Unexpected docker status " ++ c.status ++ ": " ++ c.name))

def stopAll : Job Unit := do
  for c in ← containers Detector.ownContainers do
    let _ ← removeContainer c

def isWorker (line : String) : Bool := contains line "celery"

def isWorking : Job Bool := do return (← get).processes.any isWorker

def startWorkers (processes : Int := -1) : Job Unit := do
  let t ← clock
  let stamp := replace t.dateText "-" "_" ++ "_" ++ replace t.clockText ":" "_"
  let _ ← call ["python3", "-m", "celery", "worker", "--detach", "-A", "celery_tasks",
    "--logfile=/tmp/celery_tasks_" ++ stamp ++ ".log", "-c", ofInt processes] s.directory

def stopWorkers : Job Unit :=
  orElseOrdinary (do
    for line in (← get).processes.filter isWorker do
      kill line) fun _ => pure ()

def isOwn (j : CronJob) : Bool :=
  j.enabled && contains (j.command ++ " # " ++ j.comment) s.file

def register (interval : Int := -1) (watch : Bool := false) : Job Unit := do
  let others := (← get).cron.filter fun j => !s.isOwn j
  let command := "sudo python3 " ++ s.file ++ " cleanup -p " ++ ofInt processes ++ " -t 7200"
    ++ (if watch then " -s" else "")
  let own : CronJob :=
    { command, comment := "maloss cleanup job every " ++ ofInt interval ++ " minutes", minutes := some interval }
  noteCall (.crontab user (others ++ [own]))

def unregister : Job Unit := do
  noteCall (.crontab user ((← get).cron.filter fun j => !s.isOwn j))

/-! ## Commands -/

def ensureWatching (watch : Bool) : Job Unit := do
  if watch && !(← isWatching) then
    s.startWatching
    waitWatching

/-- Starts everything. Without a user the scheduler is not registered. -/
def start (user : Option String) (interval : Int) (watch : Bool := false) : Job Unit := do
  s.ensureWatching watch
  s.startWorkers processes
  if let some u := user then s.register processes u interval watch

def stop (watch : Bool := false) : Job Unit := do
  s.unregister user
  stopWorkers
  if watch && (← isWatching) then s.stopWatching
  let _ ← saveTraces (-1)
  stopAll

def restart (watch : Bool := false) : Job Unit := do
  stopWorkers
  let _ ← call ["service", "docker", "stop"]
  let _ ← call ["rm", "-rf", "/var/lib/docker/containers/*"]
  let _ ← call ["rm", "/var/lib/systemd/catalog/database"]
  let _ ← call ["service", "docker", "start"]
  sleep 60
  s.ensureWatching watch
  s.startWorkers processes

def limitOr (default : Int) (n : Option Int) : Int :=
  match n with
  | some n => if n ≤ 0 then default else n
  | none => default

/-- Removes the containers that run for too long, up to the first that stays. Whether all are gone. -/
def removeOvertime (now : Time.Stamp) (timeout : Int) : List Container → Job Bool
  | [] => return true
  | c :: cs => do
    let started ← Time.ofDoc (.str c.started)
    if (← now.sub started) ≤ timeout * 1000000 then removeOvertime now timeout cs
    else if ← removeContainer c then removeOvertime now timeout cs
    else return false

/-- Moves traces away, and if there are many containers removes those that run for too long. Too many, or one that
stays, or traces that are not written any more, make everything start anew. -/
def cleanUp (timeout : Int) (watch : Bool := false) (maxContainers : Option Int := some (-1))
    (restartContainers : Option Int := some (-1)) : Job Unit := do
  if !(← saveTraces) then s.restart processes watch
  else
    let cpus := (← get).cpus
    let most := limitOr cpus maxContainers
    let tooMany := limitOr (cpus * 3) restartContainers
    let found ← containers Detector.ownContainers
    let stalled := watch && (← isWatching) && !(← isWorking)
    if !stalled && (found.length : Int) < most then return
    if !stalled && tooMany ≤ (found.length : Int) then s.restart processes watch
    else
      let now := { ← clock with offset := some 0 }
      if !(← removeOvertime now timeout found) then s.restart processes watch
      else if (watch && !(← isWatching)) || !(← isWorking) then s.start processes none 0 watch

open Command in
def forms : List (String × Form) := [
  ("start", { items := [
    (count "processes" "p").needed, (Command.option "user" "u").needed, count "interval" "i" (.int 10),
    switch "sysdig" "s"] }),
  ("cleanup", { items := [
    (count "processes" "p").needed, (count "timeout" "t").needed, count "max_containers" "c",
    count "restart_containers" "r", switch "sysdig" "s"] }),
  ("stop", { items := [(Command.option "user" "u").needed, switch "sysdig" "s"] })]

def run (args : List String) : Job Unit := do
  let values ← Command.readCommands forms args
  let value (k : String) : Doc := (values.get? k).getD .null
  let int (k : String) : Int := (value k).int?.getD 0
  let watch := (value "sysdig").truthy
  match value "cmd" with
  | .str "start" => s.start (int "processes") (some ((value "user").strD "")) (int "interval") watch
  | .str "cleanup" =>
    s.cleanUp (int "processes") (int "timeout") watch (value "max_containers").int? (value "restart_containers").int?
  | .str "stop" => s.stop ((value "user").strD "") watch
  | _ => Job.stop (.failure "Unhandled job: None")

end Scheduler

end Vetting
