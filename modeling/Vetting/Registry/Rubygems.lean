import Vetting.Registry.Client

/-!
# Packages of the Ruby registry

What a package depends on is found by installing it and asking what was installed with it.
-/

namespace Vetting.Registry.Rubygems

open Client Job

def namesIn (deps : Doc) : Except Fault (List Doc) := do
  (← deps.items).mapM fun d => d.at "name"

/-- Checks that the dependencies that metadata list have names that can be told apart. -/
def checkDeps (info : Doc) : Except Fault Unit := do
  if !info.truthy then return
  if !(← info.has "dependencies") then return
  let deps ← info.at "dependencies"
  for kind in ["development", "runtime"] do
    if ← deps.has kind then
      for name in ← namesIn (← deps.at kind) do
        let _ ← name.asKey

variable (c : Client) (name : String) (version : Option String)

def metadata (version : Option String := none) : Job Doc :=
  c.keptMetadata name version (fetchDoc ("https://rubygems.org/api/v1/gems/" ++ name ++ ".json")) cached checkDeps

def timedVersions (list : Doc) : Except Fault (List (Doc × Time.Stamp)) := do
  (← list.items).filterMapM fun d => do
    if !(← d.has "created_at") then return none
    let number ← d.at "number"
    return some (number, ← Time.ofDoc (← d.at "created_at"))

def versions (c : Client) (name : String) (limit gapDays : Option Int) : Job (List Listed) := do
  let dir ← c.infoDir name
  let fileName := Package.packageFile "versions" name (some "json")
  if let some dir := dir then
    let file := Path.join dir fileName
    if ← exists? file then
      let kept ← attempt do Listed.thin limit gapDays (← timedVersions (← readDoc file))
      if let .ok vs := kept then return vs
  match ← attempt (fetchDoc ("https://rubygems.org/api/v1/versions/" ++ name ++ ".json")) with
  | .error _ => return []
  | .ok list =>
    if let some dir := dir then
      ensureDirectory dir
      writePretty (Path.join dir fileName) list
    Listed.thin limit gapDays (← timedVersions list)

def author : Job Doc := do
  match ← metadata c name with
  | .null => return .obj []
  | info =>
    let authors ← info.find "authors"
    let owners ← match ← attempt (fetchDoc ("https://rubygems.org/api/v1/gems/" ++ name ++ "/owners.json")) with
      | .ok d => pure d
      | .error _ => pure .null
    return .obj [("authors", authors), ("owners", owners)]

def versionWords : List String :=
  match filled version with
  | some v => ["-v", v]
  | none => []

def forUser (asRoot : Bool) (command : List String) : List String :=
  if asRoot then "sudo" :: command else command ++ ["--user-install"]

def download (outdir : Option String) : Job (Option String) := do
  execute "gem fetch" (["gem", "fetch", name] ++ versionWords version) outdir
  let pattern := match version with
    | none => name ++ "-*.gem"
    | some v => name ++ "-" ++ v ++ "*.gem"
  match ← glob (← below outdir pattern) with
  | [p] => return some p
  | _ =>
    let info ← metadata c name version
    if info.isNull then return none
    let address ← info.at "gem_uri"
    if !address.truthy then return none
    let address ← address.text
    let file := (Text.splitOn address "/").getLastD ""
    execute "gem fetch (wget)" ["wget", address, "-O", file] outdir
    let p ← below outdir file
    return if ← exists? p then some p else none

def install (name : String) (version : Option String) (o : RunOptions) : Job Unit := do
  let command := ["gem", "install", name] ++ versionWords version
  let command := match filled o.installDir with
    | some dir => withSudo o.asRoot (command ++ ["--install-dir", dir])
    | none => forUser o.asRoot command
  runCommand "gem install" (← tracedPackage name version o (words command))

def installFile (file : String) (o : RunOptions) : Job Unit := do
  runCommand "gem install file" (← tracedFile file o (words (forUser o.asRoot ["gem", "install", file])))

def uninstall (name : String) (version : Option String) (o : RunOptions) : Job Unit := do
  let command := forUser o.asRoot (["gem", "uninstall", name] ++ versionWords version)
  runCommand "gem uninstall" (← tracedPackage name version o (words command))

/-! ## Dependencies -/

/-- The names of the packages that a package needs at run time. -/
def runtimeDeps : Job (List Doc) := do
  let info ← metadata c name version
  if !info.truthy then return []
  if !(← info.has "dependencies") then return []
  let deps ← info.at "dependencies"
  if !(← deps.has "runtime") then return []
  let deps ← deps.at "runtime"
  if !deps.truthy then return []
  namesIn deps

def installedLine (l : String) : Except Fault (String × Option String) :=
  match Text.splitOn (Text.stripOf l ")") " (" with
  | [name, versions] =>
    let v := (Text.splitOn versions ": ").getLastD ""
    let v := (Text.splitOn v ", ").headD ""
    .ok (name, some ((Text.splitOn v " ").headD ""))
  | _ => .error (.cause .badValue)

/-- The installed versions of the packages that a package needs. -/
def installedDeps (env : Table String String) (name : String) (version : Option String) : Job Deps := do
  let wanted ← runtimeDeps c name version
  let text ← outputText (← output? "gem list" ["gem", "list"] none (some env))
  let lines := (Text.splitOn text "\n").filter fun l => !l.isEmpty
  let installed ← (lines.mapM installedLine : Except Fault _)
  return Table.ofPairs (installed.filter fun p => wanted.any fun d => Doc.same d (.str p.1))

def findOut (temp : String) : Job Found := do
  install name version { installDir := some temp }
  let env := (← get).env.set "GEM_HOME" temp
  let direct ← installedDeps c env name version
  let all : Deps ← if direct.isEmpty then pure [] else allDeps (installedDeps c env) name version
  return { direct := direct.fields, all := all.fields }

def dependencies (flatten : Bool := false) (cacheOnly : Bool := false) : Job Doc := do
  let _ ← metadata c name version
  let dir ← c.infoDir name
  c.keptDeps dir name version flatten cacheOnly (findOut c name version)

def installDeps (o : RunOptions) : Job Unit := do
  let deps ← (← dependencies c name version).entries
  let command := ["gem", "install"] ++ deps.map (fun (k, v) => k ++ ":" ++ v.shown) ++ ["--ignore-dependencies"]
  runCommand "gem install dependency"
    (← tracedPackage name version o (words (forUser o.asRoot command)) true) o.installDir

def main (name : String) (o : RunOptions) : Job Unit :=
  runCommand "python main.py" (words ["python", "main.py", name, "-m", "rubygems"]) (some scriptDir) o.timeout

def hasMain : Job Bool := do
  let text ← output? "gem path" ["gem", "path", Text.replace name "-" "/"]
  exists? (Path.join (Text.strip (← outputText text)) "bin")

def exercise (name : String) (o : RunOptions) : Job Unit :=
  runCommand "ruby exercise.rb" (words ["ruby", "exercise.rb", name]) (some scriptDir) o.timeout

end Vetting.Registry.Rubygems
