import Vetting.Host.Files

/-!
# Commands

Running other programs. Every command is noted; the first rule that fits decides what it does.
-/

namespace Vetting.Job

open Text

def showRoot (h : Host) (s : String) : String := replace s h.root "$W"

def Rule.fits (h : Host) (words : List (Option String)) (r : Rule) : Bool :=
  r.shell.isNone && r.times != some 0 && (r.start.map some).isPrefixOf (words.map fun w => w.map (showRoot h))

/-- The first rule that a test picks, and the rules after its use. -/
def useRule (p : Rule → Bool) : List Rule → Option Rule × List Rule
  | [] => (none, [])
  | r :: rs =>
    if p r then (some r, { r with times := r.times.map (· - 1) } :: rs)
    else
      let (found, rs) := useRule p rs
      (found, r :: rs)

def ruleFor (p : Rule → Bool) : Job (Option Rule) := do
  let h ← get
  let (found, rules) := useRule p h.rules
  set { h with rules }
  return found

def maxCommands : Nat := 200

def record (c : CommandRun) : Job Unit := do
  let h ← get
  if maxCommands ≤ h.commandCount then fault .runtime
  set { h with commandCount := h.commandCount + 1 }
  note fun l => { l with commands := l.commands ++ [c] }

/-- What a stretch after an opening brace stands for: perhaps the word of a number. -/
def fillStretch (words : List (Option String)) (cs : List Char) : List Char :=
  let ds := cs.takeWhile Char.isDigit
  match cs.drop ds.length with
  | '}' :: rest =>
    if ds.isEmpty then '{' :: cs
    else (((words[natOfDigits ds]?).getD none).getD "None").toList ++ rest
  | _ => '{' :: cs

def fillWords (words : List (Option String)) (p : String) : String :=
  match splitChars ['{'] p.toList with
  | first :: rest => String.ofList (first ++ rest.flatMap (fillStretch words))
  | [] => p

def writeDeep (p : String) (c : Content) : Job Unit := do
  let p ← absolute p
  makeDirectories (Path.parent p) true
  write p c

def writeFiles (r : Rule) (words : List (Option String)) (cwd : Option String) : Job Unit := do
  for (p, c) in r.files do
    writeDeep (Path.join (cwd.getD "") (fillWords words p)) c

def words (ws : List String) : List (Option String) := ws.map some

/-- How a command that was run to its end turned out. -/
structure Outcome where
  failed : Bool := false
  output : String := ""
  status : Int := 0
deriving BEq, DecidableEq, Inhabited

variable (label line : String)

def exec (ws : List (Option String)) (cwd : Option String := none) (env : Option (Table String String) := none)
    (timeout : Option Int := none) : Job Outcome := do
  record { label, words := .list ws, cwd, timeout, env }
  match ← ruleFor (Rule.fits (← get) ws) with
  | none => return {}
  | some r =>
    if r.fail then return { failed := true, status := -1 }
    writeFiles r ws cwd
    return { output := r.stdout, status := r.status }

def execute (ws : List String) (cwd : Option String := none) (env : Option (Table String String) := none)
    (timeout : Option Int := none) : Job Unit := do
  let _ ← exec label (words ws) cwd env timeout

def output? (ws : List String) (cwd : Option String := none) (env : Option (Table String String) := none)
    (timeout : Option Int := none) : Job (Option String) := do
  let o ← exec label (words ws) cwd env timeout
  return if o.failed then none else some o.output

def outputText (o : Option String) : Job String :=
  match o with
  | some s => return s
  | none => fault .noMember

def raiseAs (name : String) : Job Unit :=
  if name = "WorkerLostError" then fault .workerLost
  else if name = "SoftTimeLimitExceeded" then fault .timeLimit
  else fault .runtime

def Rule.fitsLine (r : Rule) : Bool :=
  match r.shell with
  | none => false
  | some s => r.times != some 0 && contains line s

def shell (line : String) : Job Unit := do
  record { label := "shell", words := .line line }
  match ← ruleFor (Rule.fitsLine line) with
  | none => return
  | some r =>
    match r.raises with
    | some name => raiseAs name
    | none => fault .commandFailed

/-- Runs a program in the foreground as a rule says: its status. -/
def foreground (ws : List String) (cwd : Option String) (env : Option (Table String String)) : Job Int := do
  record { label, words := .list (words ws), cwd, env }
  match ← ruleFor (Rule.fits (← get) (words ws)) with
  | none => return 0
  | some r =>
    modify fun h => { h with processes := h.processes ++ r.starts, elapsed := h.elapsed + r.takes * 1000000 }
    if r.fail then fault .systemError
    if r.interrupt then fault .interrupted
    writeFiles r (words ws) cwd
    return r.status

def call (ws : List String) (cwd : Option String := none) (env : Option (Table String String) := none) :
    Job Int := foreground "call" ws cwd env

def run (ws : List String) (check : Bool := false) (cwd : Option String := none) : Job Int := do
  let status ← foreground "run" ws cwd none
  if check && status != 0 then fault .commandFailed
  return status

/-! ## Small programs

The few programs that every machine has, as far as commands here use them.
-/

/-- What a program prints and its status. -/
structure ProgramRun where
  output : String := ""
  status : Int := 0
deriving BEq, DecidableEq, Inhabited

/-- A word of a shell line with its variables replaced. -/
def expandVariables (env : Table String String) (w : String) : String :=
  match splitChars ['$'] w.toList with
  | [] => ""
  | first :: pieces => String.ofList (first ++ (pieces.map fun p =>
      let name := p.takeWhile fun c => c.isAlphanum || c = '_'
      ((env.get? (String.ofList name)).getD "").toList ++ p.drop name.length).flatten)

def runLine (env : Table String String) (line : String) : Option ProgramRun :=
  match Text.words (expandVariables env line) with
  | ["exit", n] => some { status := (intOf? n).getD 2 % 256 }
  | "echo" :: ws => some { output := join " " ws ++ "\n" }
  | ["true"] => some {}
  | ["false"] => some { status := 1 }
  | [] => some {}
  | _ => some { status := 127 }

def concatenate : List String → Job ProgramRun
  | [] => return {}
  | p :: ps => do
    let first ← attempt (readRaw p)
    let rest ← concatenate ps
    match first with
    | .ok s => return { rest with output := s ++ rest.output }
    | .error _ => return { rest with status := 1 }

/-- Runs a program, if there is one of the name and its directory is there. -/
def runProgram (ws : List String) (cwd : Option String) (env : Option (Table String String)) :
    Job (Option ProgramRun) := do
  let h ← get
  let dir ← match cwd with
    | some d => absolute d
    | none => pure h.cwd
  if !(← isDirectory dir) then return none
  match ws with
  | "echo" :: args => return some { output := join " " args ++ "\n" }
  | "true" :: _ => return some {}
  | "false" :: _ => return some { status := 1 }
  | "pwd" :: _ => return some { output := dir ++ "\n" }
  | "cat" :: files => return some (← concatenate (files.map (Path.join dir)))
  | ["sh", "-c", line] => return runLine (env.getD h.env) line
  | _ => return none

def processName : String := String.ofList (line.toList.takeWhile (· != ' '))

def isRunning (name : String) : Job Bool := do
  return (← get).processes.any fun line => processName line == name

def noteCall (c : OutsideCall) : Job Unit := note fun l => { l with calls := l.calls ++ [c] }

def kill : Job Unit := do
  noteCall (.kill line)
  if endsWith line "unkillable" then fault .runtime
  modify fun h => { h with processes := h.processes.erase line }

def sleep (seconds : Int) : Job Unit := do
  noteCall (.sleep seconds)
  modify fun h => { h with elapsed := h.elapsed + seconds * 1000000 }

def clock : Job Time.Stamp := do
  let h ← get
  return { h.now with micros := h.now.micros + h.elapsed }

/-! ### Containers

Calls to the container service. Every call is noted before it may fail.
-/

def noteDocker (c : DockerCall) : Job Unit := note fun l => { l with docker := l.docker ++ [c] }

def dockerFault (kind : String) : Job Unit := do
  if let some name := (← get).dockerFaults.get? kind then raiseAs name

def containers (options : List (String × Doc)) : Job (List Container) := do
  noteDocker (.list options)
  dockerFault "list"
  return (← get).containers

def runContainer (image : String) (options : List (String × Doc)) : Job Unit := do
  noteDocker (.run image options)
  dockerFault "run"

def stopContainer (c : Container) (options : List (String × Doc) := []) : Job Unit := do
  noteDocker (.stop c.name options)
  if c.bad.contains "stop" || (options.isEmpty && c.bad.contains "stop()") then fault .runtime

def removeContainer (c : Container) : Job Unit := do
  noteDocker (.remove c.name [])
  if c.bad.contains "remove" then fault .runtime

end Vetting.Job
