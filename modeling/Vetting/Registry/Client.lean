import Vetting.Host.Commands
import Vetting.Language
import Vetting.Package.Version

/-!
# Clients of registries

A client asks one registry about packages and keeps the answers in a directory, either one for all
packages or one for each. Here is what all clients have in common.
-/

/-! ## Registries

The registries that packages are published in, and which of them can be asked.
-/

namespace Vetting.Registry

open Job Path Package

inductive Kind where
  | pypi
  | npmjs
  | rubygems
  | maven
  | jcenter
  | jitpack
  | nuget
  | packagist
  | dockerhub
  | vagrantcloud
  | debian
  | ubuntu
  | aur
  | yum
  | cpan
  | cran
  | glide
  | swiftpm
  | launchpad
deriving BEq, DecidableEq, Inhabited

namespace Kind

def all : List Kind := [
  .pypi, .npmjs, .rubygems, .maven, .jcenter, .jitpack, .nuget, .packagist, .dockerhub,
  .vagrantcloud, .debian, .ubuntu, .aur, .yum, .cpan, .cran, .glide, .swiftpm, .launchpad]

def word : Kind → String
  | .pypi => "pypi"
  | .npmjs => "npmjs"
  | .rubygems => "rubygems"
  | .maven => "maven"
  | .jcenter => "jcenter"
  | .jitpack => "jitpack"
  | .nuget => "nuget"
  | .packagist => "packagist"
  | .dockerhub => "dockerhub"
  | .vagrantcloud => "vagrantcloud"
  | .debian => "debian"
  | .ubuntu => "ubuntu"
  | .aur => "aur"
  | .yum => "yum"
  | .cpan => "cpan"
  | .cran => "cran"
  | .glide => "glide"
  | .swiftpm => "swift_pm"
  | .launchpad => "launchpad"

def ofWord? (s : String) : Option Kind := all.find? fun k => k.word == s

def ofWord (s : String) : Except Fault Kind :=
  match ofWord? s with
  | some k => .ok k
  | none => .error (.cause .badValue)

def isServed : Kind → Bool
  | .pypi | .npmjs | .rubygems | .maven | .jcenter | .jitpack | .nuget | .packagist => true
  | _ => false

def served (k : Kind) : Except Fault Kind :=
  if k.isServed then .ok k
  else .error (.failure ("Proxy not available for package manager: " ++ k.word))

def ofLanguage? : Language → Option Kind
  | .python => some .pypi
  | .javascript => some .npmjs
  | .ruby => some .rubygems
  | .java => some .maven
  | .php => some .packagist
  | .csharp => some .nuget
  | _ => none

def ofLanguage (l : Language) : Except Fault Kind :=
  match ofLanguage? l with
  | some k => .ok k
  | none => .error (.failure ("Proxy not available for language: " ++ l.word))

end Kind

structure Client where
  /-- Tells clients of one host apart. -/
  id : Nat := 0
  kind : Kind
  cacheDir : Option String := none
  /-- Keep what is known about each package in a directory of its own. -/
  isolate : Bool := false
  metadataFormat : Option String := none
  depFormat : Option String := none
deriving BEq, DecidableEq, Inhabited

def Kind.formats : Kind → Option String × Option String
  | .pypi => (some "json", some "requirement")
  | .maven => (some "pom", some "json")
  | .jcenter => (some "pom", some "json")
  | .jitpack => (some "pom", some "json")
  | .ubuntu => (none, none)
  | _ => (some "json", some "json")

def Client.make (kind : Kind) (cacheDir : Option String := none) (isolate : Bool := false) : Job Client := do
  let h ← get
  set { h with clients := h.clients + 1 }
  let (metadataFormat, depFormat) := kind.formats
  return { id := h.clients, kind, cacheDir, isolate, metadataFormat, depFormat }

def Client.forLanguage (l : Language) (cacheDir : Option String := none) (isolate : Bool := false) : Job Client := do
  Client.make (← Kind.ofLanguage l) cacheDir isolate

/-- How a command on a package is run. -/
structure RunOptions where
  trace : Bool := false
  stringSize : Option Int := some 1024
  asRoot : Bool := false
  installDir : Option String := none
  outdir : Option String := none
  timeout : Option Int := none
deriving BEq, DecidableEq, Inhabited

namespace Client

/-! ### Directories and files -/

def directoryFor (name cacheDir : String) : Job String := do
  let p := join cacheDir (forFile name)
  ensureDirectory p
  return p

variable (c : Client) (file : String) (dir : Option String)

def infoDir (name : String) : Job (Option String) := do
  if c.isolate then
    match c.cacheDir with
    | some d => return some (← directoryFor name d)
    | none => fault .wrongType
  else return c.cacheDir

def metadataName (name : String) (version : Option String) : String :=
  cacheFile "metadata" name version false c.metadataFormat

def depName (name : String) (version : Option String) (flatten : Bool) : String :=
  cacheFile (if flatten then "flatten_dep" else "dep") name version false c.depFormat

def cached (p : String) : Job (Option Doc) := do
  if ← exists? p then
    orElse (do return some (← readDoc p)) fun _ => pure none
  else return none

/-- What is kept about a package and can be read, or else what can be fetched, which is kept then. Null if there
is nothing, or a format that cannot be read. -/
def keptMetadata (name : String) (version : Option String) (fetch : Job Doc)
    (read : String → Job (Option Doc) := cached) (check : Doc → Except Fault Unit := fun _ => .ok ()) : Job Doc := do
  let dir ← c.infoDir name
  let isJson := c.metadataFormat = some "json"
  if let some dir := dir then
    let file := join dir (c.metadataName name version)
    if ← exists? file then
      if isJson then
        if let some d ← read file then return d
      else return .null
  match ← attempt fetch with
  | .error _ => return .null
  | .ok info =>
    check info
    if let some dir := dir then
      ensureDirectory dir
      if isJson then writePretty (join dir (c.metadataName name version)) info
    return info

/-! ### Commands -/

def filled (v : Option String) : Option String := v.filter fun s => !s.isEmpty

/-- The command that records the system calls of another. -/
def traceWords (o : RunOptions) : List String :=
  let size := match o.stringSize with
    | some n => Text.ofInt n
    | none => "None"
  (if o.asRoot then ["sudo"] else []) ++ ["strace", "-fqv", "-s", size, "-o", file]

def traced (traceName : String) (o : RunOptions) (command : List (Option String)) : Job (List (Option String)) := do
  match o.trace, o.outdir with
  | true, some outdir =>
    ensureDirectory outdir
    return words (traceWords (join outdir traceName) o) ++ command
  | _, _ => return command

def tracedPackage (name : String) (version : Option String) (o : RunOptions)
    (command : List (Option String)) (forDeps : Bool := false) : Job (List (Option String)) :=
  let file := if forDeps then traceDepFile name version o.asRoot
    else traceFile name version o.asRoot
  traced file o command

def tracedFile (o : RunOptions) (command : List (Option String)) : Job (List (Option String)) :=
  traced (base file ++ (if o.asRoot then ":sudo" else "") ++ ".strace") o command

def runCommand (label : String) (command : List (Option String)) (cwd : Option String := none)
    (timeout : Option Int := none) : Job Unit := do
  let _ ← exec label command cwd none timeout

def withSudo (asRoot : Bool) (command : List String) : List String :=
  if asRoot then "sudo" :: command else command

/-! ### Dependencies -/

abbrev Deps := Table String (Option String)

def Deps.fields (ds : Deps) : Table String Doc := ds.map fun (k, v) => (k, Doc.ofStr? v)

def Deps.toDoc (ds : Deps) : Doc := .obj ds.fields

/-- All that a package depends on, directly or not: every package that is met is asked once. -/
def allDeps (next : String → Option String → Job Deps) (name : String) (version : Option String) : Job Deps := do
  let visited ← Graph.closure (fun p => next p.1 p.2) (name, version)
  return Table.ofPairs (visited.filter fun p => p != (name, version))

/-- What is kept about dependencies and can be read; null if its format cannot be read. -/
def cachedDeps (name : String) (version : Option String) (flatten : Bool) : Job (Option Doc) := do
  let some dir := dir | return none
  let file := join dir (c.depName name version flatten)
  if !(← exists? file) then return none
  if c.depFormat = some "json" then cached file else return some .null

/-- What was found out about the packages that a package depends on, directly and at all. -/
structure Found where
  direct : Table String Doc := []
  all : Table String Doc := []
deriving Inhabited

def Found.deps (f : Found) (flatten : Bool) : Table String Doc := if flatten then f.all else f.direct

def keepDeps (name : String) (version : Option String) (found : Found) : Job Unit := do
  let some dir := dir | return
  ensureDirectory dir
  if c.depFormat = some "json" then
    writePretty (join dir (c.depName name version false)) (.obj found.direct)
    writePretty (join dir (c.depName name version true)) (.obj found.all)

/-- What is kept about dependencies, or else found out in a temporary directory and kept then. -/
def keptDeps (name : String) (version : Option String) (flatten cacheOnly : Bool) (findOut : String → Job Found) :
    Job Doc := do
  match ← c.cachedDeps dir name version flatten with
  | some d => return d
  | none =>
    if cacheOnly then return .null
    let temp ← temporaryDir "get_dep-"
    let found ← findOut temp
    c.keepDeps dir name version found
    removeTree temp
    return .obj (found.deps flatten)

/-! #### What tools leave -/

/-- What a tool that finds out dependencies left to be read. -/
inductive Outcome where
  /-- Nothing, or nothing that can be read. -/
  | nothing
  | lock (d : Doc)
  | tree (lines : List String)
deriving Inhabited

def lockIn : Job Outcome := do
  if ← exists? file then
    match ← attempt (readDoc file) with
    | .ok d => return .lock d
    | .error _ => return .nothing
  else return .nothing

def wantedOf (key : String) (all : Table String Doc) (own : Doc) : Except Fault (Table String Doc) := do
  if !(← own.has key) then return []
  let wanted ← (← own.at key).keys
  return all.filter fun p => wanted.contains p.1

/-- What locked versions tell, even if what the package asks for cannot be told. -/
def Found.ofLocked (key : String) (locked : Except Fault (Option (Table String Doc × Doc))) : Found :=
  match locked with
  | .ok (some (all, own)) =>
    match wantedOf key all own with
    | .ok direct => { direct, all }
    | .error _ => { all }
  | _ => {}

def scriptDir : String := "pm_proxy/scripts"

def below (name : String) : Job String :=
  match dir with
  | some d => return join d name
  | none => fault .wrongType

end Client

/-! ### Listed versions

The versions of a package as a registry lists them: most registries say when each was made.
-/

structure Listed where
  version : Doc
  time : Option Time.Stamp := none
deriving Inhabited, BEq

namespace Listed

def ofRelease (r : Package.Release) : Listed := { version := .str r.1, time := some r.2 }

def toDoc (timed : Bool) (l : Listed) : Doc :=
  match timed, l.time with
  | true, some t => .arr [l.version, .str t.text]
  | _, _ => l.version

/-- At most `limit` dated versions. Others than texts pass only in a short list. -/
def thin (limit gapDays : Option Int) (vs : List (Doc × Time.Stamp)) : Except Fault (List Listed) := do
  let some bound := limit | throw (.cause .wrongType)
  if (vs.length : Int) ≤ bound then
    return vs.map fun (v, t) => { version := v, time := some t }
  let rs ← vs.mapM fun (v, t) => do return (← v.text, t)
  return (← Package.thin limit gapDays rs).map ofRelease

end Listed

end Vetting.Registry
