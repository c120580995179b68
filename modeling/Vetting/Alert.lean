import Vetting.Api.Node
import Vetting.Network

/-!
# Alerts by package

The name of a container says which package ran in it, in which version and for which job, so that alerts can
be put together by package and rule.
-/

/-!
## Rules for alerts

An alert is raised when a package talks to a host, touches a file, starts a process or needs privileges.
-/

namespace Vetting.Alert

inductive Rule where
  | outgoingDomain
  | incomingDomain
  | outgoingIp
  | incomingIp
  | writeFile
  | readFile
  | statFile
  | spawnProcess
  | sensitiveOperation
deriving BEq, DecidableEq, Inhabited

namespace Rule

def all : List Rule := [
  .outgoingDomain, .incomingDomain, .outgoingIp, .incomingIp, .writeFile, .readFile, .statFile,
  .spawnProcess, .sensitiveOperation]

def word : Rule → String
  | .outgoingDomain => "outgoing_domain"
  | .incomingDomain => "incoming_domain"
  | .outgoingIp => "outgoing_ip"
  | .incomingIp => "incoming_ip"
  | .writeFile => "write_file"
  | .readFile => "read_file"
  | .statFile => "stat_file"
  | .spawnProcess => "spawn_process"
  | .sensitiveOperation => "sensitive_operation"

def ofWord? (s : String) : Option Rule := all.find? fun r => r.word == s

/-- Words that no rule may have, because the table of rules uses them itself. -/
def taken : List String := [
  "__annotations__", "__base__", "__bases__", "__basicsize__", "__bool__", "__call__", "__class__",
  "__contains__", "__delattr__", "__dict__", "__dictoffset__", "__dir__", "__doc__", "__eq__",
  "__flags__", "__format__", "__ge__", "__getattr__", "__getattribute__", "__getitem__",
  "__getstate__", "__gt__", "__hash__", "__init__", "__init_subclass__", "__instancecheck__",
  "__itemsize__", "__iter__", "__le__", "__len__", "__lt__", "__members__", "__module__", "__mro__",
  "__name__", "__ne__", "__new__", "__or__", "__prepare__", "__qualname__", "__reduce__",
  "__reduce_ex__", "__repr__", "__reversed__", "__ror__", "__setattr__", "__sizeof__", "__str__",
  "__subclasscheck__", "__subclasses__", "__subclasshook__", "__text_signature__",
  "__weakrefoffset__", "_check_for_existing_members_", "_convert_", "_create_", "_find_data_repr_",
  "_find_data_type_", "_find_new_", "_generate_next_value_", "_get_mixins_", "_member_map_",
  "_member_names_", "_member_type_", "_missing_", "_new_member_", "_unhashable_values_",
  "_use_args_", "_value2member_map_", "_value_repr_", "mro"]

end Rule

/-- What ran in a container. -/
structure Run where
  /-- The package's name in the form that container names have. -/
  name : String
  version : Option String
  asRoot : Bool
deriving BEq, DecidableEq, Inhabited

/-- What an alert tells. -/
inductive Observation where
  /-- A host, an address or a file. -/
  | target (value : Doc)
  | process (user program command : Doc)
  | operation (user command call : Doc)
deriving Inhabited, BEq

namespace Observation

def parts : Observation → List Doc
  | .target v => [v]
  | .process u p c => [u, p, c]
  | .operation u c k => [u, c, k]

def same (x y : Observation) : Bool := Doc.sameList x.parts y.parts

def toDoc : Observation → Doc
  | .target v => v
  | x => .arr x.parts

end Observation

abbrev Findings := Table Rule (List Observation)

abbrev Collection := Table Run Findings

/-! ### Names of containers -/

def cutAtLast (sep s : String) : Option (String × String) :=
  match Text.findChars sep.toList.reverse s.toList.reverse with
  | none => none
  | some n =>
    let cs := s.toList
    some (String.ofList (cs.take (cs.length - n - sep.length)), String.ofList (cs.drop (cs.length - n)))

/-- The package, version and job of a container's name, cut as far to the right as possible. -/
def splitContainer (s : String) : Option (String × String × String) :=
  match cutAtLast ".." s with
  | none => none
  | some (rest, job) =>
    match cutAtLast ".." rest with
    | none => none
    | some (name, version) => some (name, version, job)

def Run.ofContainer (s : String) : Except Fault Run :=
  match splitContainer s with
  | none => .error (.cause .badValue)
  | some (name, version, job) =>
    .ok { name, version := if version = "None" then none else some version, asRoot := Text.endsWith job "sudo" }

/-! ### Fields of alerts -/

def field (fields : List (String × Doc)) (k : String) : Except Fault Doc :=
  match fields.lookup k with
  | some v => .ok v
  | none => .error (.missingKey (Text.quoted k))

def isAtom : Doc → Bool
  | .arr _ => false
  | .obj _ => false
  | _ => true

def countable (x : Observation) : Except Fault (Option Observation) :=
  if x.parts.all isAtom then .ok (some x) else .error (.cause .wrongType)

def firstHost (data : String) : Option String :=
  ((Text.splitOn data "..").map fun s => Text.stripOf s ".").find? fun s => Network.isHostName s.toList

def target (fields : List (String × Doc)) (k : String) : Except Fault (Option Observation) := do
  match ← field fields k with
  | .null => return none
  | v => countable (.target v)

def observe (r : Rule) (fields : List (String × Doc)) : Except Fault (Option Observation) := do
  match r with
  | .outgoingDomain | .incomingDomain =>
    match ← field fields "evt.arg.data" with
    | .str data => return (firstHost data).map fun h => .target (.str h)
    | _ => throw (.cause .noMember)
  | .outgoingIp => target fields "fd.sip"
  | .incomingIp => target fields "fd.cip"
  | .writeFile | .readFile | .statFile => target fields "fd.name"
  | .spawnProcess =>
    match ← field fields "user.name" with
    | .null => return none
    | user =>
      match ← field fields "proc.name" with
      | .null => return none
      | program =>
        match ← field fields "proc.cmdline" with
        | .null => return none
        | command => countable (.process user program command)
  | .sensitiveOperation =>
    match ← field fields "user.name" with
    | .null => return none
    | user =>
      match ← field fields "proc.cmdline" with
      | .null => return none
      | command => countable (.operation user command ((fields.lookup "evt.type").getD .null))

/-! ### Collecting -/

def insertNew (xs : List Observation) (x : Observation) : List Observation :=
  if xs.any (·.same x) then xs else xs ++ [x]

def Collection.file (c : Collection) (run : Run) (r : Rule) (x : Option Observation) : Collection :=
  c.modify run [] fun findings => findings.modify r [] fun xs =>
    match x with
    | some x => insertNew xs x
    | none => xs

/-- Adds one alert, unless it is from outside of containers or of a rule that is not followed. -/
def Collection.add (c : Collection) (alert : Doc) : Except Fault Collection := do
  let .obj alert := alert | throw (.cause .noMember)
  let .obj fields := (alert.lookup "output_fields").getD (.obj []) | throw (.cause .noMember)
  let container := (fields.lookup "container.name").getD .null
  if !container.truthy then return c
  let .str container := container | throw (.cause .noMember)
  if container = "host" then return c
  let run ← Run.ofContainer container
  match ← field alert "rule" with
  | .str rule =>
    match Rule.ofWord? rule with
    | some r => return c.file run r (← observe r fields)
    | none => if Rule.taken.contains rule then throw (.cause .badValue) else return c
  | _ => throw (.cause .wrongType)

def collect (alerts : List Doc) : Except Fault Collection := alerts.foldlM Collection.add []

/-! ## The message about a run

The findings about a run are kept as a message: under its main process the network, file, child
process and sensitive activities, one for each observation.
-/

def messageText (k : String) : Doc → Except Fault (List (String × Doc))
  | .str s => .ok (Api.textField k s)
  | _ => .error (.cause .wrongType)

def messageTexts (kvs : List (String × Doc)) : Except Fault Doc := do
  return .obj (← kvs.mapM fun (k, v) => messageText k v).flatten

def Rule.activityList : Rule → String
  | .outgoingDomain | .incomingDomain | .outgoingIp | .incomingIp => "network_activities"
  | .writeFile | .readFile | .statFile => "file_activities"
  | .spawnProcess => "child_process_activities"
  | .sensitiveOperation => "sensitive_activities"

def activity (r : Rule) (x : Observation) : Except Fault Doc :=
  match r, x with
  | .outgoingIp, .target v => messageTexts [("ip", v)]
  | .incomingIp, .target v => messageTexts [("ip", v)]
  | .writeFile, .target v => messageTexts [("filepath", v), ("mode", .str "w")]
  | .readFile, .target v => messageTexts [("filepath", v), ("mode", .str "r")]
  | .statFile, .target v => messageTexts [("filepath", v), ("mode", .str "e")]
  | _, .target v => messageTexts [("domain", v)]
  | _, .process u p c => messageTexts [("user", u), ("exe", p), ("cmdline", c)]
  | _, .operation u c k => messageTexts [("user", u), ("cmdline", c), ("syscall", k)]

def activityLists : List String :=
  ["network_activities", "file_activities", "child_process_activities", "sensitive_activities"]

def activities (f : Findings) : Except Fault (List (String × Doc)) := do
  return (← f.mapM fun (r, xs) => xs.mapM fun x => do return (r.activityList, ← activity r x)).flatten

def report (asRoot : Bool) (f : Findings) : Except Fault Doc := do
  let found ← activities f
  let lists := activityLists.map fun k => (k, Doc.arr ((found.filter fun p => p.1 == k).map Prod.snd))
  return Message.normal "DynamicAnalysis" (.obj [
    ("exe_user", .str (if asRoot then "sudo" else "maloss")),
    ("process_activity", .obj (("main_process", .bool true) :: lists))])

end Vetting.Alert
