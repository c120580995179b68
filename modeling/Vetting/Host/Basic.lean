import Vetting.Graph.Basic
import Vetting.Settings
import Vetting.Time

/-!
# The host

All that a job can see or change outside of itself is part of one value, the host. A job is a function on
hosts: it gives a result or stops with a fault, and what it did before stays done.
-/

/-! ## Paths

Paths are texts with slashes between their parts. A path that starts with a slash is absolute.
-/

namespace Vetting.Path

variable (p : String)

def isAbsolute : Bool := Text.startsWith p "/"

def join (a b : String) : String :=
  if isAbsolute b then b
  else if a.isEmpty || Text.endsWith a "/" then a ++ b
  else a ++ "/" ++ b

def split : String × String :=
  match Text.cutLast '/' p.toList with
  | none => ("", p)
  | some (head, tail) =>
    let head := if head.all (· = '/') then head ++ ['/'] else Text.stripEnd (· = '/') head
    (String.ofList head, String.ofList tail)

def base : String := (split p).2

def parent : String := (split p).1

/-- A path before the last dot of its last part, dots at the start apart, and the rest. -/
def splitExt : String × String :=
  let name := (base p).toList
  let dots := name.takeWhile (· = '.')
  match Text.cutLast '.' (name.drop dots.length) with
  | none => (p, "")
  | some (_, ext) =>
    let ext := "." ++ String.ofList ext
    (String.ofList (p.toList.take (p.length - ext.length)), ext)

/-- Takes one part of a path into the parts so far, last first; two dots go up. -/
def step (absolute : Bool) (parts : List String) (part : String) : List String :=
  if part = "" || part = "." then parts
  else if part = ".." then
    match parts with
    | [] => if absolute then [] else [".."]
    | ".." :: _ => ".." :: parts
    | _ :: rest => rest
  else part :: parts

/-- A path without empty parts, dots, and parts that are left again. -/
def normal : String :=
  if p.isEmpty then "."
  else
    let absolute := isAbsolute p
    let parts := ((Text.splitOn p "/").foldl (step absolute) []).reverse
    let start := if absolute then
        (if Text.startsWith p "//" && !Text.startsWith p "///" then "//" else "/") else ""
    let s := start ++ Text.join "/" parts
    if s.isEmpty then "." else s

def parts : List String := (Text.splitOn p "/").filter fun s => !s.isEmpty

def commonStart : List String → List String → Nat
  | a :: as, b :: bs => if a = b then commonStart as bs + 1 else 0
  | _, _ => 0

def relative (start : String) : String :=
  let ps := parts p
  let ss := parts start
  let n := commonStart ps ss
  let rel := List.replicate (ss.length - n) ".." ++ ps.drop n
  if rel.isEmpty then "." else Text.join "/" rel

def isBelow (dir : String) : Bool :=
  if dir = "/" then p != "/" && isAbsolute p else Text.startsWith p (dir ++ "/")

end Vetting.Path

/-! ## The host -/

namespace Vetting

inductive Content where
  | text (s : String)
  | bytes (bs : List UInt8)
  /-- A stored graph, perhaps packed in an archive. -/
  | graph (g : Graph) (packed : Bool)
deriving Inhabited, BEq

/-- What is at a path. -/
inductive Entry where
  | directory
  | file (c : Content)
deriving Inhabited, BEq

structure Response where
  text : String
  ok : Bool
deriving BEq, DecidableEq, Inhabited

/-- What a command is given. -/
inductive CommandWords where
  | list (words : List (Option String))
  | line (s : String)
deriving BEq, DecidableEq, Inhabited

structure CommandRun where
  label : String
  words : CommandWords
  cwd : Option String := none
  timeout : Option Int := none
  env : Option (Table String String) := none
deriving BEq, DecidableEq, Inhabited

/-- How a command turns out. -/
structure Rule where
  start : List String := []
  /-- A part of a shell line, for commands given as such. -/
  shell : Option String := none
  /-- How often the rule may still be used. -/
  times : Option Nat := none
  fail : Bool := false
  interrupt : Bool := false
  raises : Option String := none
  /-- Files that the command writes; a number in braces stands for that word. -/
  files : List (String × Content) := []
  stdout : String := ""
  status : Int := 0
  starts : List String := []
  takes : Int := 0
deriving Inhabited, BEq

structure Container where
  name : String
  /-- The calls that fail. -/
  bad : List String := []
  status : String := "running"
  started : String := "2020-01-01T00:00:00Z"
deriving BEq, DecidableEq, Inhabited

inductive DockerCall where
  | list (options : List (String × Doc))
  | run (image : String) (options : List (String × Doc))
  | stop (name : String) (options : List (String × Doc))
  | remove (name : String) (options : List (String × Doc))
deriving Inhabited, BEq

structure CronJob where
  command : String
  comment : String := ""
  enabled : Bool := true
  /-- Minutes between two runs, for a job that was added. -/
  minutes : Option Int := none
deriving BEq, DecidableEq, Inhabited

inductive OutsideCall where
  | sleep (seconds : Int)
  | kill (line : String)
  | crontab (user : String) (jobs : List CronJob)
  | celery (name : Doc) (broker : Doc) (backend : Doc)
  | config (values : List (String × Doc))
  | applyAsync (tasks : List (String × Doc))
  | addUser (name email password : Doc)
  | commit
  | close
deriving Inhabited, BEq

structure Task where
  id : String
  command : String
  timeout : Int
  upstream : Option (List String) := none
deriving BEq, DecidableEq, Inhabited

structure Workflow where
  id : String
  defaults : Doc
  schedule : Doc
  tasks : List Task := []
deriving Inhabited, BEq

/-- What a job did, in order. -/
structure Log where
  commands : List CommandRun := []
  requests : List String := []
  docker : List DockerCall := []
  calls : List OutsideCall := []
  workflows : List Workflow := []
  output : String := ""
deriving Inhabited, BEq

/-- An installed package of modules. -/
structure Distribution where
  entryPoints : Table String (List String) := []
  topLevel : Option (List String) := none
deriving BEq, DecidableEq, Inhabited

structure Host where
  /-- The directory under which everything lies. -/
  root : String
  cwd : String
  files : Table String Entry := []
  /-- The trees of sources, by the sources. -/
  trees : List (String × Doc) := []
  env : Table String String := []
  web : Table String (Option Response) := []
  rules : List Rule := []
  now : Time.Stamp := default
  /-- Microseconds since `now`. -/
  elapsed : Int := 0
  ages : Table String Int := []
  processes : List String := []
  cpus : Nat := 4
  containers : List Container := []
  dockerFaults : Table String String := []
  celery : Option (Option String) := none
  cron : List CronJob := []
  distributions : Table String Distribution := []
  temporary : Nat := 0
  commandCount : Nat := 0
  /-- What the workers of the queue have loaded, if they have. -/
  workers : Option Workers := none
  /-- How many registry clients were made. -/
  clients : Nat := 0
  /-- The interpreters that packages need, by client, name and version. -/
  interpreters : List ((Nat × String × Option String) × Bool) := []
  log : Log := {}
deriving Inhabited

abbrev Job := ExceptT Fault (StateM Host)

namespace Job

def stop {α : Type} (f : Fault) : Job α := throw f

def fault {α : Type} (c : Cause) : Job α := throw (.cause c)

def runOn {α : Type} (j : Job α) (h : Host) : Except Fault α × Host := (ExceptT.run j).run h

/-- What a pure step gives, as a job. -/
instance : MonadLift (Except Fault) Job := ⟨fun e => ExceptT.mk (pure e)⟩

def orElse {α : Type} (j : Job α) (other : Fault → Job α) : Job α := tryCatch j other

def orElseOrdinary {α : Type} (j : Job α) (other : Fault → Job α) : Job α :=
  tryCatch j fun f => if f.isOrdinary then other f else throw f

def attempt {α : Type} (j : Job α) : Job (Except Fault α) :=
  tryCatch (j >>= fun a => pure (.ok a)) fun f => pure (.error f)

def note (f : Log → Log) : Job Unit := modify fun h => { h with log := f h.log }

def print (s : String) : Job Unit := note fun l => { l with output := l.output ++ s }

def printLine (s : String) : Job Unit := print (s ++ "\n")

def environment? (k : String) : Job (Option String) := do return (← get).env.get? k

end Job

end Vetting
