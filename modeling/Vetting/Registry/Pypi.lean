import Vetting.Package.Requirement
import Vetting.Registry.Client

/-!
# Packages of the Python registry

What a package depends on is found by installing it and asking which of the packages it requires were
installed with it.
-/

namespace Vetting.Registry.Headers

def isHeaderLine (l : List Char) : Bool :=
  match l with
  | ' ' :: _ => true
  | '\t' :: _ => true
  | l =>
    "From ".toList.isPrefixOf l ||
      (l.dropWhile fun c => 33 ≤ c.toNat && c.toNat ≤ 126 && c != ':').head? = some ':'

/-- Adds a line to the headers so far, the last one first. -/
def addLine (hs : List (String × String)) (l : List Char) : List (String × String) :=
  match l with
  | [] => hs
  | c :: _ =>
    if c = ' ' || c = '\t' then
      match hs with
      | (k, v) :: rest => (k, v ++ String.ofList l) :: rest
      | [] => []
    else if "From ".toList.isPrefixOf l then hs
    else match Text.cutFirst ':' l with
      | some ([], _) => hs
      | some (k, v) =>
        (String.ofList k, String.ofList (v.dropWhile fun c => c = ' ' || c = '\t')) :: hs
      | none => hs

/-- The headers of a text; of two of one name the last counts. -/
def parse (s : String) : Table String String :=
  let lines := (Text.linesWithEnds s).map String.toList
  let hs := (lines.takeWhile isHeaderLine).foldl addLine []
  Table.ofPairs (hs.reverse.map fun (k, v) =>
    (k, String.ofList (Text.stripEnd (fun c => c = '\r' || c = '\n') v.toList)))

end Vetting.Registry.Headers

namespace Vetting.Registry.Pypi

open Client Job

/-! ## Metadata -/

def metadataUrl (name : String) (version : Option String) : String :=
  match filled version with
  | some v => "https://pypi.python.org/pypi/" ++ name ++ "/" ++ v ++ "/json"
  | none => "https://pypi.python.org/pypi/" ++ name ++ "/json"

variable (c : Client)

def metadata (name : String) (version : Option String := none) : Job Doc :=
  c.keptMetadata name version (fetchDoc (metadataUrl name version))

def anyStarts (start : String) : List Doc → Except Fault Bool
  | [] => .ok false
  | d :: ds => do
    if Text.startsWith (← d.text) start then return true
    anyStarts start ds

/-- Whether metadata ask for the third version of the language, and not also for the second. -/
def wantsThree (info : Doc) : Except Fault Bool := do
  if !info.truthy then return false
  if !(← info.has "info") then return false
  let info ← info.at "info"
  if !(← info.has "classifiers") then return false
  let classifiers ← (← info.at "classifiers").items
  if ← anyStarts "Programming Language :: Python :: 2" classifiers then return false
  anyStarts "Programming Language :: Python :: 3" classifiers

/-- Whether a package needs the third version of the language. A client asks once. -/
def needsThree (name : String) (version : Option String) : Job Bool := do
  match (← get).interpreters.lookup (c.id, name, version) with
  | some b => return b
  | none =>
    let b ← wantsThree (← metadata c name version)
    modify fun h => { h with interpreters := ((c.id, name, version), b) :: h.interpreters }
    return b

def installer (name : String) (version : Option String) : Job String := do
  return if ← needsThree c name version then "pip3" else "pip2"

def pinned (name : String) (version : Option String) : String :=
  match filled version with
  | some v => name ++ "==" ++ v
  | none => name

def latest (ts : List Time.Stamp) : Except Fault Time.Stamp := do
  let rs : List Package.Release := ts.map fun t => ("", t)
  match ← Package.newestFirst rs with
  | r :: _ => return r.2
  | [] => throw (.cause .outOfRange)

def releases (info : Doc) : Except Fault (List Package.Release) := do
  let all ← (← info.at "releases").entries
  let present ← all.filterM fun (_, files) => do return (← files.size) > 0
  present.mapM fun (v, files) => do
    let times ← (← files.items).mapM fun f => do Time.ofDoc (← f.at "upload_time")
    return (v, ← latest times)

def versions (name : String) (limit gapDays : Option Int) : Job (List Listed) := do
  match ← metadata c name with
  | .null => return []
  | info => return (← Package.thin limit gapDays (← releases info)).map Listed.ofRelease

def author (c : Client) (name : String) : Job Doc := do
  match ← metadata c name with
  | .null => return .obj []
  | info =>
    if !(← info.has "info") then return .obj []
    let info ← info.at "info"
    let maintainer ← info.find "maintainer"
    let author ← info.find "author"
    let email ← info.find "author_email"
    return .obj [("maintainer", maintainer), ("author", author), ("author_email", email)]

def download (c : Client) (name : String) (version outdir : Option String) (binary withDep : Bool) :
    Job (Option String) := do
  let pip ← installer c name version
  execute "pip download" ([pip, "download", pinned name version]
    ++ (if binary then [] else ["--no-binary", ":all:"]) ++ (if withDep then [] else ["--no-deps"])) outdir
  match version with
  | none =>
    match ← glob (← below outdir (name ++ "-*.tar.gz")) with
    | [p] => return some p
    | _ => return none
  | some v =>
    let p ← below outdir (name ++ "-" ++ v ++ ".tar.gz")
    return if ← exists? p then some p else none

def install (c : Client) (name : String) (version : Option String) (o : RunOptions) : Job Unit := do
  let pip ← installer c name version
  let command := [pip, "install", pinned name version]
  let command := match filled o.installDir with
    | some dir => withSudo o.asRoot (command ++ ["--prefix", dir])
    | none => if o.asRoot then "sudo" :: command else command ++ ["--user"]
  runCommand "pip install" (← tracedPackage name version o (words command))

def installFile (file : String) (o : RunOptions) : Job Unit := do
  let command := ["pip2", "install", file]
  let command := if o.asRoot then "sudo" :: command else command ++ ["--user"]
  runCommand "pip install file" (← tracedFile file o (words command))

def uninstall (c : Client) (name : String) (version : Option String) (o : RunOptions) : Job Unit := do
  let pip ← installer c name version
  let command := [pip, "uninstall", pinned name version]
  let command := if o.asRoot then "sudo" :: command else command ++ ["--user"]
  runCommand "pip uninstall" (← tracedPackage name version o (words command))

/-! ## Dependencies -/

abbrev Env := Option (Table String String)

/-- The names of the packages that an installed package requires, as the installer shows them. -/
def shownRequirements (name : String) (version : Option String) (env : Env) : Job (List String) := do
  let pip ← installer c name version
  let some text ← output? "pip show" [pip, "show", name] none env | fault .wrongType
  match (Headers.parse text).get? "Requires" with
  | some v =>
    if v.isEmpty then return []
    return (Text.splitOn v ",").map fun s => Text.lower (Text.strip s)
  | none => return []

def requirements (name : String) (version : Option String) (env : Env := none) : Job (List String) := do
  let info ← metadata c name version
  if !info.truthy then return []
  if !(← info.has "info") then return []
  let info ← info.at "info"
  if !(← info.has "requires_dist") then return []
  let wanted ← info.at "requires_dist"
  if wanted.truthy then
    let texts ← (← wanted.items).mapM fun (d : Doc) => (do return Text.lower (← d.text) : Except Fault String)
    texts.mapM fun s => (Package.Requirement.projectName s : Except Fault String)
  else shownRequirements c name version env

def installedRequirements (name : String) (version : Option String) (env : Env := none) : Job Deps := do
  let wanted ← requirements c name version env
  let pip ← installer c name version
  let text ← outputText (← output? "pip freeze" [pip, "freeze"] none env)
  let pairs := (Text.splitOn text "\n").filterMap fun l =>
    match Text.splitOn l "==" with
    | [n, v] => if wanted.contains (Text.lower n) then some (n, some v) else none
    | _ => none
  return Table.ofPairs pairs

def requirementLines (ds : Deps) : String :=
  Text.join "\n" (ds.map fun (n, v) => n ++ "==" ++ Package.shown v)

def ofRequirementLines (s : String) : Except Fault Doc := do
  let pairs ← ((Text.splitOn s "\n").filter fun l => !l.isEmpty).mapM fun l =>
    match Text.splitOn l "==" with
    | n :: v :: _ => Except.ok (n, Doc.str v)
    | _ => .error (.cause .badValue)
  return Doc.ofPairs pairs

def keepDeps (file : String) (ds : Deps) : Job Unit := do
  if c.depFormat = some "json" then writePretty file ds.toDoc
  else if c.depFormat = some "requirement" then writeText file (requirementLines ds)

def dependencies (name : String) (version : Option String) (flatten : Bool := false) (cacheOnly : Bool := false) :
    Job Doc := do
  let _ ← metadata c name version
  let dir ← c.infoDir name
  if let some dir := dir then
    let file := Path.join dir (c.depName name version flatten)
    if ← exists? file then
      if c.depFormat = some "json" then
        if let some d ← cached file then return d
      else if c.depFormat = some "requirement" then return ← ofRequirementLines (← readText file)
      else return .null
  if cacheOnly then return .null
  let temp ← temporaryDir "get_dep-"
  install c name version { installDir := some temp }
  let three ← needsThree c name version
  let path := temp ++ "/lib/" ++ (if three then "python3.5" else "python2.7") ++ "/site-packages/"
  let env : Env := some ((← get).env.set "PYTHONPATH" path)
  let deps ← installedRequirements c name version env
  let all ← if deps.isEmpty then pure [] else allDeps (fun n v => installedRequirements c n v env) name version
  if let some dir := dir then
    ensureDirectory dir
    keepDeps c (Path.join dir (c.depName name version false)) deps
    keepDeps c (Path.join dir (c.depName name version true)) all
  removeTree temp
  return Deps.toDoc (if flatten then all else deps)

/-- Installs what a package depends on, given the file that lists it. -/
def installDeps (name : String) (version depFile : Option String) (o : RunOptions) : Job Unit := do
  let pip ← installer c name version
  let command := words [pip, "install", "-r"] ++ [depFile]
  let command := if o.asRoot then some "sudo" :: command else command ++ [some "--user"]
  runCommand "pip install dependency" (← tracedPackage name version o command true)

def main (c : Client) (name : String) (version : Option String) (o : RunOptions) : Job Unit := do
  if ← needsThree c name version then
    runCommand "python3 main.py" (words ["python3", "main.py", name]) (some scriptDir) o.timeout
  else runCommand "python main.py" (words ["python", "main.py", name]) (some scriptDir) o.timeout

/-- Loads the modules of a package and calls what they offer. -/
def exercise (c : Client) (name : String) (version : Option String) (o : RunOptions) : Job Unit := do
  if ← needsThree c name version then
    runCommand "python exercise_py3.py" (words ["python3", "exercise_py3.py", name]) (some scriptDir) o.timeout
  else runCommand "python exercise.py" (words ["python", "exercise.py", name]) (some scriptDir) o.timeout

end Vetting.Registry.Pypi
