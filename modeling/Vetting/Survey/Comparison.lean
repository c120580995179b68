import Vetting.Analysis.Packages

/-!
# Comparing uses

What all files or versions have in common, what any has, and what sets each apart.
-/

namespace Vetting.Survey

open Registry Analysis

/-! ## What one file or version uses -/

abbrev Counts := Table String Nat

def Counts.add (c : Counts) (k : String) : Counts := Table.modify c k 0 (· + 1)

def Counts.toDoc (c : Counts) : Doc := .obj (c.map fun (k, n) => (k, .int n))

/-- The permission that a watched interface stands for, if it has a role. -/
def permissionOf (n : Api.Node) : Option String :=
  match n.role, n.detail with
  | .source, some (.source label) => some label
  | .source, _ => some "SOURCE_UNCLASSIFIED"
  | .sink, some (.sink label) | .danger, some (.sink label) => some label
  | .sink, _ | .danger, _ => some "SINK_UNCLASSIFIED"
  | _, _ => none

def permissionsOf (apis : List Api.Node) : Table String String :=
  Table.ofPairs (apis.filterMap fun n => (permissionOf n).map fun p => (n.fullName, p))

/-- What a file or version uses. -/
structure Profile where
  permissions : Counts := []
  apis : Counts := []
deriving BEq, DecidableEq, Inhabited

namespace Profile

variable (watched : Table String String)

def count (p : Profile) (n : Api.Node) : Profile :=
  match watched.get? n.fullName with
  | some permission => { permissions := p.permissions.add permission, apis := p.apis.add n.fullName }
  | none => p

def ofUses (uses : List Api.Node) : Profile := uses.foldl (count watched) {}

def ofReport (r : Api.Report) : Except Fault Profile := do
  return ofUses watched (← r.first).uses

end Profile

/-! ## What several share -/

/-- What all of several profiles have in common, and what any of them has. -/
structure Shared where
  commonPermissions : List String := []
  allPermissions : List String := []
  commonApis : List String := []
  allApis : List String := []
deriving BEq, DecidableEq, Inhabited

variable (xs ys : List String)

def union : List String := ys.foldl addNew xs

def common : List String := xs.filter ys.contains

def apart : List String := xs.filter fun x => !ys.contains x

namespace Shared

/-- Takes in a profile; the first one is all in common with itself. -/
def add (first : Bool) (s : Shared) (p : Profile) : Shared :=
  let meet (xs ys : List String) := if first then union xs ys else common xs ys
  { commonPermissions := meet s.commonPermissions p.permissions.keys
    allPermissions := union s.allPermissions p.permissions.keys
    commonApis := meet s.commonApis p.apis.keys
    allApis := union s.allApis p.apis.keys }

def fields (s : Shared) : Table String Doc :=
  let list (xs : List String) := Doc.arr (xs.map .str)
  [("common_permissions", list s.commonPermissions), ("all_permissions", list s.allPermissions),
    ("common_apis", list s.commonApis), ("all_apis", list s.allApis)]

end Shared

def Profile.fields (s : Shared) (p : Profile) : Table String Doc :=
  [("permissions", p.permissions.toDoc), ("apis", p.apis.toDoc),
    ("uniq_permissions", .arr ((apart p.permissions.keys s.commonPermissions).map .str)),
    ("uniq_apis", .arr ((apart p.apis.keys s.commonApis).map .str))]

/-- A version: what it uses and what it depends on. -/
structure VersionProfile where
  profile : Profile
  deps : Table String Doc := []
deriving Inhabited

/-- A package: what its versions share and each of them. -/
structure PackageProfile where
  shared : Shared := {}
  commonDeps : List String := []
  versions : Table String VersionProfile := []
deriving Inhabited

namespace PackageProfile

/-- Takes in a version. The dependencies in common start anew whenever there are none. -/
def add (p : PackageProfile) (version : String) (v : VersionProfile) : PackageProfile :=
  { shared := p.shared.add p.versions.isEmpty v.profile
    commonDeps := if p.commonDeps.isEmpty then v.deps.keys else common p.commonDeps v.deps.keys
    versions := p.versions.set version v }

/-- The document of a package, compared with all packages. -/
def toDoc (all : Shared) (p : PackageProfile) : Doc :=
  .obj (p.shared.fields ++ [("common_deps", .arr (p.commonDeps.map .str))] ++ p.versions.map fun (version, v) =>
      (version, .obj (v.profile.fields all ++ [("deps", .obj v.deps),
        ("uniq_deps", .arr ((apart v.deps.keys p.commonDeps).map .str))])))

end PackageProfile

/-! ## The comparison -/

structure Comparison where
  infiles : List String := []
  names : List String := []
  language : Language
  outdir : Option String := none
  cacheDir : Option String := none
  config : Option String := none
  outfile : Option String := none
  /-- Take only kept dependencies. -/
  cacheOnly : Bool := true
deriving Inhabited

namespace Comparison

variable (c : Comparison) (client : Client) (watched : Table String String)

def results : Except Fault String :=
  match c.outdir with
  | some d => .ok d
  | none => .error (.cause .wrongType)

def fileReports : Job (Table String Api.Report) :=
  c.infiles.foldlM (fun t infile => do
    let file := Path.join (← c.results) (Path.base infile ++ ".out")
    search c.language { inpath := infile, outfile := file, config := c.config }
    return t.set infile (← readReport file)) []

/-- The reports on the versions of the packages. Versions without a report are left out. -/
def packageReports : Job (Table String (Table String Api.Report)) :=
  c.names.foldlM (fun t name => do
    let some versions ← client.versions name | Job.fault .wrongType
    versions.foldlM (fun t v => do
      let version := v.version.shown
      match ← usesOf c.language client name (← c.results) c.config (some version) with
      | none => return t
      | some r => return t.modify name [] fun vs => vs.set version r) t) []

def settings : Job Api.Config := do
  let config ← readConfig c.config
  if config.funcOnly then Job.stop (.failure "func_only is not supported yet!")
  return config

def profileFiles (reports : Table String Api.Report) : Except Fault (Shared × Table String Profile) :=
  reports.foldlM (fun (s, ps) (path, r) => do
    let p ← Profile.ofReport watched r
    return (s.add ps.isEmpty p, ps ++ [(path, p)])) ({}, [])

/-- Takes in a version; `first` says that no package was taken in before this one. -/
def addVersion (name : String) (first : Bool) (sp : Shared × PackageProfile) (v : String × Api.Report) :
    Job (Shared × PackageProfile) := do
  let profile ← Profile.ofReport watched v.2
  let all := sp.1.add (first && sp.2.versions.isEmpty) profile
  let deps ← client.dependencies name (some v.1) false c.cacheOnly
  return (all, sp.2.add v.1 { profile, deps := deps.fieldsOf })

def profilePackages (start : Shared) (reports : Table String (Table String Api.Report)) :
    Job (Shared × Table String PackageProfile) :=
  reports.foldlM (fun (s, ps) (name, versions) => do
    let (s, p) ← versions.foldlM (c.addVersion client watched name ps.isEmpty) (s, {})
    return (s, ps ++ [(name, p)])) (start, [])

def addFields (t : Table String Doc) (name : String) (fields : Table String Doc) : Table String Doc :=
  t.modify name (.obj []) fun d => .obj (Table.update d.fieldsOf fields)

def summary (all : Shared) (files : Table String (Table String Doc)) (packages : Table String PackageProfile) : Doc :=
  let t := files.foldl (fun t (path, fields) => addFields t path fields) all.fields
  .obj (packages.foldl (fun t (name, p) => addFields t name (p.toDoc all).fieldsOf) t)

/-- What a comparison is about, once everything has been searched. -/
structure Gathered where
  client : Client
  files : Table String Api.Report
  packages : Table String (Table String Api.Report)
  /-- The interfaces that the settings list. -/
  apis : List Api.Node

/-- Searches the files and the versions of the packages, and reads the settings. -/
def gather : Job Gathered := do
  let c := { c with language := ← analysed c.language }
  let client ← Client.forLanguage c.language c.cacheDir true
  let files ← c.fileReports
  let packages ← c.packageReports client
  return { client, files, packages, apis := (← c.settings).apis }

/-- Writes the summary of each package, all of them to the file of the last one. -/
def writePackages (all : Shared) (packages : Table String PackageProfile) : Job Unit := do
  if let some (last, _) := packages.getLast? then
    let file := Path.join (← c.results) (Package.packageFile "compare_versions" last (some "json"))
    for (_, p) in packages do
      Job.writePretty file (p.toDoc all)

def compare (g : Gathered) : Job Doc := do
  let watched := permissionsOf g.apis
  let (shared, files) ← profileFiles watched g.files
  let (all, packages) ← c.profilePackages g.client watched shared g.packages
  c.writePackages all packages
  return summary all (files.map fun (path, p) => (path, p.fields shared)) packages

def run : Job Unit := do
  let d ← c.compare (← c.gather)
  match c.outfile.filter fun p => !p.isEmpty with
  | some outfile => Job.writePretty outfile d
  | none => return

end Comparison

end Vetting.Survey
