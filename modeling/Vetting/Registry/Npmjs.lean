import Vetting.Registry.Client

/-!
# Packages of the JavaScript registry

The registry is asked through its own command. What a package depends on is found by installing it
and looking at the versions that were locked.
-/

namespace Vetting.Registry.Npmjs

open Client

def lookupFailure : String := "getaddrinfo ENOTFOUND registry.npmjs.us registry.npmjs.us:443"

def isLookupFailure (d : Doc) : Except Fault Bool := do
  if (← d.size) != 1 then return false
  if !(← d.has "error") then return false
  return Doc.same (← (← d.at "error").at "summary") (.str lookupFailure)

variable (c : Client) (name : String) (version : Option String)

def metadata (version : Option String := none) : Job Doc :=
  let view : Job Doc := do
    let some text ← Job.output? "npm view" ["npm", "view", name, "--json"] | Job.fault .wrongType
    Job.parseDoc text
  let read (file : String) : Job (Option Doc) := do
    let kept ← Job.attempt do
      let d ← Job.readDoc file
      return (d, ← isLookupFailure d)
    if let .ok (d, false) := kept then return some d
    return none
  c.keptMetadata name version view read

def timedVersions (times : Doc) : Except Fault (List (Doc × Time.Stamp)) := do
  let all ← times.entries
  (all.filter fun p => p.1 != "modified" && p.1 != "created").mapM fun (v, t) => do
    return (.str v, ← Time.ofDoc t)

def versions (limit gapDays : Option Int) : Job (List Listed) := do
  match ← metadata c name with
  | .null => return []
  | info =>
    if !(← info.has "time") then return []
    let times ← info.at "time"
    match timedVersions times with
    | .ok vs => Listed.thin limit gapDays vs
    | .error _ => return []

def author (c : Client) (name : String) : Job Doc := do
  match ← metadata c name with
  | .null => return .obj []
  | info =>
    if !(← info.has "time") then return .obj []
    let author ← info.find "author"
    let maintainers ← info.find "maintainers"
    let user ← info.find "_npmUser"
    return .obj [("author", author), ("maintainers", maintainers), ("npmUser", user)]

/-! ## Commands -/

def pinned : String :=
  match filled version with
  | some v => name ++ "@" ++ v
  | none => name

def globally (asRoot : Bool) (command : List String) : List String :=
  if asRoot then "sudo" :: command ++ ["-g"] else command

def packageFile : String :=
  let name := if Text.startsWith name "@" then Text.replace (Text.lstripOf name "@") "/" "-" else name
  match version with
  | none => name ++ "-*.tgz"
  | some v => name ++ "-" ++ v ++ ".tgz"

def download (outdir : Option String) : Job (Option String) := do
  Job.execute "npm pack" ["npm", "pack", pinned name version] outdir
  let p ← below outdir (packageFile name version)
  match version with
  | none =>
    match ← Job.glob p with
    | [p] => return some p
    | _ => return none
  | some _ => return if ← Job.exists? p then some p else none

def install (name : String) (version : Option String) (o : RunOptions) : Job Unit := do
  let command := globally o.asRoot ["npm", "install", pinned name version]
  runCommand "npm install" (← tracedPackage name version o (Job.words command)) o.installDir

def installFile (file : String) (o : RunOptions) : Job Unit := do
  let command := globally o.asRoot ["npm", "install", file]
  runCommand "npm install file" (← tracedFile file o (Job.words command)) o.installDir

def uninstall (name : String) (version : Option String) (o : RunOptions) : Job Unit := do
  let command := globally o.asRoot ["npm", "uninstall", pinned name version]
  runCommand "npm uninstall" (← tracedPackage name version o (Job.words command)) o.installDir

/-- The locked versions of all other packages, and what is locked for a package that is listed. -/
def locked (lock : Doc) : Except Fault (Option (Table String Doc × Doc)) := do
  if !(← lock.has "dependencies") then return none
  let deps ← lock.at "dependencies"
  if !(← deps.has name) then return none
  let others := (← deps.entries).filter fun p => p.1 != name
  let versions ← others.mapM fun (k, v) => do return (k, ← v.at "version")
  return some (versions, ← deps.at name)

def found : Outcome → Found
  | .lock d => .ofLocked "requires" (locked name d)
  | _ => {}

def resolve (temp : String) : Job Outcome := do
  install name version { installDir := some temp }
  Job.execute "npm shrinkwrap" ["npm", "shrinkwrap"] (some temp)
  lockIn (Path.join temp "npm-shrinkwrap.json")

def dependencies (flatten : Bool := false) (cacheOnly : Bool := false) : Job Doc := do
  let _ ← metadata c name version
  let dir ← c.infoDir name
  c.keptDeps dir name version flatten cacheOnly fun temp => found name <$> resolve name version temp

def installDeps (o : RunOptions) : Job Unit := do
  if o.installDir.isNone && !o.asRoot then return
  let deps ← (← dependencies c name version).entries
  let command := globally o.asRoot (["npm", "install"] ++ deps.map fun (k, v) => k ++ "@" ++ v.shown)
  if !o.asRoot then Job.execute "npm init" ["npm", "init", "-y"] o.installDir
  runCommand "npm install dependency" (← tracedPackage name version o (Job.words command) true) o.installDir

/-! ## Running packages -/

def runScripts : List String :=
  ["prestart", "start", "poststart", "prestop", "stop", "poststop", "prerestart", "restart", "postrestart"]

def testScripts : List String := ["test", "pretest", "posttest", "test:browser", "test:browserless"]

def hasAny (d : Doc) : List String → Except Fault Bool
  | [] => .ok false
  | k :: ks => do if ← d.has k then return true else hasAny d ks

/-- The directory in which packages are installed. -/
def installRoot (asRoot : Bool) (installDir : Option String) : Job (Option String) := do
  if !asRoot && installDir.isNone then return none
  let text ← if asRoot then Job.output? "npm root" ["npm", "root", "-g"]
    else Job.output? "npm root" ["npm", "root"] installDir
  return some (Text.strip (← Job.outputText text))

def main (c : Client) (name : String) (version : Option String) (o : RunOptions) : Job Unit := do
  let root ← installRoot o.asRoot o.installDir
  let info ← metadata c name version
  let binaries ← info.findD "bin" (.obj [])
  let binaries ← if binaries.isStr then pure [Doc.str name] else binaries.items
  let scripts ← (← info.findD "scripts" (.obj [])).items
  let chosen := runScripts.filter fun s => scripts.any fun d => Doc.same d (.str s)
  let command := Job.words ["python", "main.py", name, "-m", "npmjs", "-r"] ++ [root]
    ++ binaries.flatMap (fun b => [some "-b", b.str?])
    ++ chosen.flatMap (fun s => [some "-s", some s])
  runCommand "python main.py" command (some scriptDir) o.timeout

def hasTest : Job Doc := do
  let info ← metadata c name version
  if !info.truthy then return info
  if !(← info.has "scripts") then return .bool false
  return .bool (← hasAny (← info.at "scripts") testScripts)

/-- Whether a package has programs or scripts to run; null if nothing is known about it. -/
def hasMain : Job Doc := do
  let info ← metadata c name version
  if !info.truthy then return .null
  if ← info.has "scripts" then
    if ← hasAny (← info.at "scripts") runScripts then return .bool true
  return .bool (← info.has "bin")

def exercise (name : String) (o : RunOptions) : Job Unit := do
  let some root ← installRoot o.asRoot o.installDir | Job.fault .wrongType
  let source := scriptDir ++ "/exercise.js"
  let target := Path.join root "exercise.js"
  if o.asRoot then Job.execute "copy exercise.js" ["sudo", "cp", source, target]
  else Job.copyFile source target
  let needed ← (← (← Job.readDoc (scriptDir ++ "/package.json")).at "dependencies").items
  for dep in needed do
    install (← dep.text) none { installDir := some root, asRoot := o.asRoot }
  runCommand "node exercise.js" (Job.words ["node", "exercise.js", name]) (some root) o.timeout

/-- Whether a package can be loaded; null if nothing is known about it. -/
def hasExercise : Job Doc := do
  let info ← metadata c name version
  if !info.truthy then return .null
  if ← info.has "main" then return .bool true
  return .bool (← info.has "browser")

end Vetting.Registry.Npmjs
