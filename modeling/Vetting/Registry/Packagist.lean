import Vetting.Registry.Client

/-!
# Packages of the PHP registry

What a package depends on is found by installing it and looking at the versions that were locked.
-/

/-!
## Versions of PHP packages

Each entry has the version in a normal form; branches have forms that start with `9999999` or a letter.
-/

namespace Vetting.Registry.Packagist

def normalForm (info : Doc) : Except Fault Doc := info.at "version_normalized"

def byNormalForm (infos : List Doc) : Except Fault (Table String Doc) :=
  infos.foldlM (fun t info => do return Table.set t (← (← normalForm info).asText) info) []

def isRelease (normal : String) : Except Fault Bool :=
  if Text.contains normal "9999999" then .ok false
  else match normal.toList with
    | c :: _ => .ok (Text.isDigit c)
    | [] => .error (.cause .outOfRange)

/-- The first release in descending order of the normal forms, or the first entry if there is none. -/
def latest (infos : List Doc) : Except Fault Doc := do
  let sorted := (← byNormalForm infos).mergeSort fun a b => Text.le b.1 a.1
  let releases ← sorted.filterM fun p => isRelease p.1
  match releases ++ sorted with
  | p :: _ => return p.2
  | [] => throw (.cause .outOfRange)

def startingWith (version : String) : List Doc → Except Fault (Option Doc)
  | [] => .ok none
  | info :: rest => do
    if Text.startsWith (← (← normalForm info).text) version then return some info
    startingWith version rest

/-- The entry of this name, the first whose normal form starts with it, or the first of all; by default the
latest. -/
def versionInfo (versions : Doc) (version : Option String) : Except Fault Doc := do
  if (← versions.size) = 0 then return .null
  match version.filter fun v => !v.isEmpty with
  | some v =>
    if ← versions.has v then versions.at v
    else
      let infos ← versions.values
      match ← startingWith v infos with
      | some info => return info
      | none => return infos.headD .null
  | none => latest (← versions.values)

open Client

/-! ### Metadata -/

variable (c : Client) (name : String)

def metadata (version : Option String := none) : Job Doc :=
  c.keptMetadata name version (Job.fetchDoc ("https://packagist.org/packages/" ++ name ++ ".json"))

def packageField (info : Doc) (k : String) : Except Fault (Option Doc) := do
  if !(← info.has "package") then return none
  let package ← info.at "package"
  if !(← package.has k) then return none
  return some (← package.at k)

/-! ### Versions and authors -/

/-- The versions of a package whose characters fit into paths. -/
def versions (c : Client) (name : String) (limit gapDays : Option Int) : Job (List Listed) := do
  match ← metadata c name with
  | .null => return []
  | info =>
    if !(← info.has "package") then return []
    let all ← (← (← info.at "package").at "versions").entries
    let dated ← all.filterMapM fun (v, d) => (do
      if !(← d.has "time") then return none
      return some (v, ← Time.ofDoc (← d.at "time")) : Except Fault (Option (String × Time.Stamp)))
    let fit := dated.filter fun p => !Text.contains p.1 "#" && !Text.contains p.1 "/"
    Listed.thin limit gapDays (fit.map fun (v, t) => (.str v, t))

def author : Job Doc := do
  match ← metadata c name with
  | .null => return .obj []
  | info =>
    if !(← info.has "package") then return .obj []
    let maintainers ← (← info.at "package").find "maintainers"
    let all ← (← (← info.at "package").at "versions").entries
    let authors ← all.filterMapM fun (v, d) => (do
      if !(← d.has "time") then return none
      return some (v, ← d.find "authors") : Except Fault (Option (String × Doc)))
    return .obj [("authors", .obj authors), ("maintainers", maintainers)]

/-! ### Commands -/

def download (c : Client) (name : String) (version outdir : Option String) : Job (Option String) := do
  let info ← metadata c name version
  let some versions ← packageField info "versions" | return none
  let info ← versionInfo versions version
  if !info.truthy then return none
  let dist ← info.at "dist"
  let address ← dist.at "url"
  let type ← dist.at "type"
  let file := Package.forFile name ++ "." ++ (← info.at "version").shown ++ "." ++ type.shown
  runCommand "composer download (wget)" [some "wget", address.str?, some "-O", some file] outdir
  let p ← below outdir file
  return if ← Job.exists? p then some p else none

/-- Makes a project that takes development versions too. -/
def startProject (o : RunOptions) : Job Unit :=
  Job.execute "composer init"
    (if o.asRoot then ["sudo", "composer", "global", "init", "--stability", "dev", "--no-interaction"]
      else ["composer", "init", "--stability", "dev", "--no-interaction"]) o.installDir

def require (asRoot : Bool) (packages : List String) : List String :=
  (if asRoot then ["sudo", "composer", "global", "require"] else ["composer", "require"]) ++ packages

def install (version : Option String) (o : RunOptions) : Job Unit := do
  startProject o
  let command := require o.asRoot (name :: (filled version).toList)
  runCommand "composer require" (← tracedPackage name version o (Job.words command)) o.installDir

def uninstall (version : Option String) (o : RunOptions) : Job Unit := do
  let command := withSudo o.asRoot ["composer", "remove", name]
  runCommand "composer remove" (← tracedPackage name version o (Job.words command)) o.installDir

/-! ### Dependencies -/

/-- The locked versions of all other packages, and what is locked for a package that is listed. -/
def locked (lock : Doc) : Except Fault (Option (Table String Doc × Doc)) := do
  if !(← lock.has "packages") then return none
  let packages ← (← lock.at "packages").items
  let named ← packages.mapM fun d => do return (← (← d.at "name").asKey, d)
  if !named.any fun p => Doc.same p.1 (.str name) then return none
  let byName := Table.ofPairs (named.map fun (k, d) => (k.shown, d))
  let others := byName.filter fun p => p.1 != name
  let versions ← others.mapM fun (k, d) => do return (k, ← d.at "version")
  match byName.get? name with
  | some own => return some (versions, own)
  | none => return none

def found : Outcome → Found
  | .lock d => .ofLocked "require" (locked name d)
  | _ => {}

def resolve (version : Option String) (temp : String) : Job Outcome := do
  install name version { installDir := some temp }
  lockIn (Path.join temp "composer.lock")

def dependencies (version : Option String) (flatten : Bool := false) (cacheOnly : Bool := false) : Job Doc := do
  let _ ← metadata c name version
  let dir ← c.infoDir name
  c.keptDeps dir name version flatten cacheOnly fun temp => found name <$> resolve name version temp

def installDeps (version : Option String) (o : RunOptions) : Job Unit := do
  if o.installDir.isNone && !o.asRoot then return
  let deps ← (← dependencies c name version).entries
  startProject o
  let command := require o.asRoot (deps.map fun (k, v) => k ++ ":" ++ v.shown)
  runCommand "composer install dependency" (← tracedPackage name version o (Job.words command) true) o.installDir

/-! ### Running packages -/

def installRoot (asRoot : Bool) (installDir : Option String) : Job (Option String) := do
  if asRoot then return some (← Job.expandHome "~/.composer") else return installDir

def main (c : Client) (name : String) (version : Option String) (o : RunOptions) : Job Unit := do
  let root ← installRoot o.asRoot o.installDir
  let info ← metadata c name version
  let versions ← (← info.at "package").at "versions"
  let binaries ← (← (← versionInfo versions version).at "bin").items
  let command := Job.words ["python", "main.py", name, "-m", "packagist", "-r"] ++ [root]
    ++ binaries.flatMap fun b => [some "-b", b.str?]
  runCommand "python main.py" command (some scriptDir) o.timeout

def hasMain (version : Option String) : Job Bool := do
  let some versions ← packageField (← metadata c name version) "versions" | return false
  let info ← versionInfo versions version
  if !info.truthy then return false
  info.has "bin"

def exercise (name : String) (o : RunOptions) : Job Unit := do
  let some root ← installRoot o.asRoot o.installDir | Job.fault .wrongType
  let source := scriptDir ++ "/exercise.php"
  let target := Path.join root "exercise.php"
  if o.asRoot then Job.execute "copy exercise.php" ["sudo", "cp", source, target]
  else Job.copyFile source target
  let needed ← (← (← Job.readDoc (scriptDir ++ "/composer.json")).at "require").items
  for dep in needed do
    install (← dep.text) none { installDir := some root, asRoot := o.asRoot }
  Job.execute "dump classmap" (withSudo o.asRoot ["composer", "dumpautoload", "--optimize"]) (some root)
  runCommand "php exercise.php" (Job.words ["php", "exercise.php", name]) (some root) o.timeout

def hasExercise (version : Option String) : Job Bool := do
  match ← packageField (← metadata c name version) "type" with
  | some type => return Doc.same type (.str "library")
  | none => return false

end Vetting.Registry.Packagist
