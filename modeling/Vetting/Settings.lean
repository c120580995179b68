import Vetting.Fault
import Vetting.Table
import Vetting.Text.Case
import Vetting.Text.Digit

/-!
# Settings of the detector

What a file of settings says about one mode of the detector, with the values that hold if it says
nothing.
-/

/-!
## Files of settings

A section stands under a line with its name in brackets and has lines with a name and a value, which goes on
in lines that are indented more. The section `DEFAULT` holds for all others. Nothing may be said twice.
-/

namespace Vetting.Settings

abbrev Section := Table String String

structure File where
  /-- What holds in all sections. -/
  general : Section := []
  sections : Table String Section := []
deriving BEq, DecidableEq, Inhabited

namespace File

def generalName : String := "DEFAULT"

def get? (f : File) (sectionName name : String) : Option String :=
  let name := Text.lower name
  if sectionName = generalName then f.general.get? name
  else (f.sections.get? sectionName).bind fun s => (s.get? name).or (f.general.get? name)

end File

/-! ### Reading -/

/-- What is wrong with a file, and where. -/
inductive FileError where
  | noSection (number : Nat) (line : String)
  | repeatedSection (number : Nat) (name : String)
  | repeatedName (number : Nat) (sectionName name : String)
  | badLines (lines : List (Nat × String))
deriving BEq, DecidableEq, Inhabited

def numberText (n : Nat) : String := Text.padLeft ' ' 2 (Text.ofNat n)

def FileError.message (file : String) : FileError → String
  | .noSection n line =>
    "File contains no section headers.\nfile: " ++ Text.quoted file ++ ", line: " ++ Text.ofNat n ++ "\n"
      ++ Text.quoted line
  | .repeatedSection n name =>
    "While reading from " ++ Text.quoted file ++ " [line " ++ numberText n ++ "]: section "
      ++ Text.quoted name ++ " already exists"
  | .repeatedName n sectionName name =>
    "While reading from " ++ Text.quoted file ++ " [line " ++ numberText n ++ "]: option "
      ++ Text.quoted name ++ " in section " ++ Text.quoted sectionName ++ " already exists"
  | .badLines lines =>
    "Source contains parsing errors: " ++ Text.quoted file ++ String.join (lines.map fun (n, line) =>
        "\n\t[line " ++ numberText n ++ "]: " ++ Text.quoted line)

/-- How far a file was read. The lines of a value are kept in order until all are known. -/
structure ReadState where
  sections : Table String (Table String (List String)) := [(File.generalName, [])]
  /-- The section that lines go to. -/
  place : Option String := none
  /-- The name whose value may go on. -/
  name : Option String := none
  indent : Nat := 0
  bad : List (Nat × String) := []
deriving Inhabited

namespace ReadState

variable (st : ReadState) (line : String) (number : Nat)

def extend : ReadState :=
  match st.place, st.name with
  | some s, some n =>
    { st with sections := st.sections.modify s [] fun t => t.modify n [] fun ls => ls ++ [line] }
  | _, _ => st

def sectionName? : Option String :=
  match line.toList with
  | '[' :: cs =>
    match Text.cutLast ']' cs with
    | some ([], _) | none => none
    | some (name, _) => some (String.ofList name)
  | _ => none

/-- The name and the value in a line: the first equals sign or colon is between them. -/
def pair? : Option (String × String) :=
  let cs := line.toList
  let before := cs.takeWhile fun c => c != '=' && c != ':'
  match cs.drop before.length with
  | [] => none
  | _ :: after => some (Text.rstrip (String.ofList before), Text.strip (String.ofList after))

def startSection (name : String) : Except FileError ReadState :=
  if name != File.generalName && st.sections.has name then .error (.repeatedSection number name)
  else .ok { st with sections := st.sections.setDefault name [], place := some name, name := none }

def startValue (raw sectionName name value : String) : Except FileError ReadState :=
  let st := if name.isEmpty then { st with bad := st.bad ++ [(number, raw)] } else st
  let name := Text.lower name
  let values := (st.sections.get? sectionName).getD []
  if values.has name then .error (.repeatedName number sectionName name)
  else .ok { st with sections := st.sections.set sectionName (values.set name [value]), name := some name }

def take (raw : String) : Except FileError ReadState :=
  let line := Text.strip raw
  if Text.startsWithAny line ["#", ";"] then .ok st
  else if line.isEmpty then .ok (if st.name.any fun n => !n.isEmpty then st.extend "" else st)
  else
    let indent := (raw.toList.takeWhile Text.isBlank).length
    if (st.name.any fun n => !n.isEmpty) && st.indent < indent then .ok (st.extend line)
    else
      let st := { st with indent }
      match sectionName? line, st.place with
      | some name, _ => st.startSection number name
      | none, none => .error (.noSection number raw)
      | none, some s =>
        match pair? line with
        | some (name, value) => st.startValue number raw s name value
        | none => .ok { st with bad := st.bad ++ [(number, raw)] }

def takeAll : ReadState → Nat → List String → Except FileError ReadState
  | st, _, [] => .ok st
  | st, number, l :: ls => do takeAll (← st.take number l) (number + 1) ls

def file : File :=
  let joined : Table String Section := st.sections.map fun (s, t) =>
    (s, t.map fun (n, ls) => (n, Text.rstrip (Text.join "\n" ls)))
  { general := (joined.get? File.generalName).getD [], sections := joined.erase File.generalName }

end ReadState

def File.read (text : String) : Except FileError File := do
  let st ← ReadState.takeAll {} 1 (Text.feedLines text)
  if st.bad.isEmpty then return st.file else throw (.badLines st.bad)

end Vetting.Settings

namespace Vetting

structure Settings where
  mode : String
  logfileStart : Option String := none
  failureFile : Option String := none
  metadataDir : Option String := none
  resultDir : Option String := none
  interProcedure : Bool := false
  flowTracking : Bool := false
  multiLanguage : Bool := false
  fuzzer : Bool := false
  /-- The program that watches packages at work. -/
  tracing : Option String := none
  /-- The queue through which work goes. -/
  queuing : Option String := none
  dryRun : Bool := false
  checkHistory : Bool := false
  skipMissingMetadata : Bool := false
  detectStealer : Bool := false
  detectBackdoor : Bool := false
  detectSabotage : Bool := false
  memoryLimit : Option String := none
  softTimeout : Int := 7200
  timeout : Int := 7800
  dockerTimeout : Int := 120
  /-- The addresses of the queue and of its results, if there is a queue. -/
  broker : Option String := none
  backend : Option String := none
deriving BEq, DecidableEq, Inhabited

namespace Settings

def isYes (w : String) : Bool := ["yes", "true", "t", "1", "enabled"].contains (Text.lower w)

def flag (v : Option String) : Bool := v.any isYes

/-- A number, which an empty value does not give. -/
def number (v : Option String) (default : Int) : Except Fault Int :=
  match v.filter fun s => !s.isEmpty with
  | none => .ok default
  | some s =>
    match Text.intOf? s with
    | some n => .ok n
    | none => .error (.cause .badValue)

def ofFile (f : File) (mode : String) : Except Fault Settings := do
  let own (name : String) := f.get? mode name
  let algorithm (name : String) := f.get? "Algorithm" name
  let softTimeout ← number (algorithm "SOFT_TIMEOUT") 7200
  let timeout ← number (algorithm "TIMEOUT") 7800
  let dockerTimeout ← number (algorithm "DOCKER_TIMEOUT") 120
  return {
    mode
    logfileStart := own "LOGFILE_PREFIX"
    failureFile := own "FAILURE_FILE"
    metadataDir := own "METADATA_DIR"
    resultDir := own "RESULT_DIR"
    interProcedure := flag (own "USE_INTER_PROCEDURE")
    flowTracking := flag (own "USE_FLOW_TRACKING")
    multiLanguage := flag (own "USE_MULTI_LANGUAGE")
    fuzzer := flag (own "USE_FUZZER")
    tracing := f.get? "Infrastructure" "TRACING"
    queuing := f.get? "Infrastructure" "QUEUING"
    dryRun := flag (algorithm "DRY_RUN")
    checkHistory := flag (algorithm "CHECK_HISTORY")
    skipMissingMetadata := flag (algorithm "SKIP_MISSING_METADATA")
    detectStealer := flag (algorithm "DETECT_STEALER")
    detectBackdoor := flag (algorithm "DETECT_BACKDOOR")
    detectSabotage := flag (algorithm "DETECT_SABOTAGE")
    memoryLimit := algorithm "MEMORY_LIMIT"
    softTimeout, timeout, dockerTimeout }

def address (f : File) (name default : String) : String :=
  match (f.get? "Celery" name).filter fun s => !s.isEmpty with
  | some s => Text.strip s
  | none => default

def isQueued (s : Settings) : Bool := s.queuing == some "Celery"

end Settings

structure Workers where
  settings : Settings
  logging : Bool := false
deriving BEq, DecidableEq, Inhabited

end Vetting
