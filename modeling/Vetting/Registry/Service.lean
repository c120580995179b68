import Vetting.Registry.Artifact
import Vetting.Registry.Npmjs
import Vetting.Registry.Nuget
import Vetting.Registry.Packagist
import Vetting.Registry.Pypi
import Vetting.Registry.Rubygems

/-!
# What every client can do

The questions that can be put to any registry, answered by the client of its kind. A registry that
has no answer to a question gives null.
-/

namespace Vetting.Registry.Client

open Markup

def elementDoc : Option Element → Doc
  | some e => e.toDoc
  | none => .null

variable (c : Client) (name : String) (version : Option String)

def metadata (version : Option String := none) : Job Doc :=
  match c.kind with
  | .pypi => Pypi.metadata c name version
  | .npmjs => Npmjs.metadata c name version
  | .rubygems => Rubygems.metadata c name version
  | .packagist => Packagist.metadata c name version
  | .nuget => Nuget.metadata c name version
  | .maven => do return elementDoc (← Maven.metadata c name version)
  | .jcenter => do return elementDoc (← Jcenter.metadata c name version)
  | .jitpack => do return elementDoc (← Jitpack.metadata c name version)
  | _ => return .null

def metadataFile : Job (Option String) := do
  match ← c.infoDir name with
  | none => return none
  | some dir =>
    Job.ensureDirectory dir
    let _ ← c.metadata name version
    return some (Path.join dir (c.metadataName name version))

def usualLimit : Option Int := some 15

def usualGap : Option Int := some 30

def versions (limit : Option Int := usualLimit) (gapDays : Option Int := usualGap) : Job (Option (List Listed)) :=
  match c.kind with
  | .pypi => some <$> Pypi.versions c name limit gapDays
  | .npmjs => some <$> Npmjs.versions c name limit gapDays
  | .rubygems => some <$> Rubygems.versions c name limit gapDays
  | .packagist => some <$> Packagist.versions c name limit gapDays
  | .nuget => some <$> Nuget.versions c name limit gapDays
  | .maven => some <$> Maven.versions name limit
  | .jcenter => some <$> Jcenter.versions name
  | .jitpack => some <$> Jitpack.versions name
  | _ => return none

def author : Job Doc :=
  match c.kind with
  | .pypi => Pypi.author c name
  | .npmjs => Npmjs.author c name
  | .rubygems => Rubygems.author c name
  | .packagist => Packagist.author c name
  | .nuget => Nuget.author c name
  | .maven => Maven.author c name
  | .jcenter => Jcenter.author c name
  | _ => return .null

def versionDigest (algorithm : String := "sha1") : Job (Option String) :=
  match c.kind with
  | .maven => Maven.versionDigest name version algorithm
  | .jcenter => Jcenter.versionDigest name version algorithm
  | .jitpack => Jitpack.versionDigest name version algorithm
  | _ => return none

abbrev Digests := List (Doc × Doc)

def Digests.fieldName (shown : Bool) : Doc → String
  | .str s => s
  | .null => if shown then "None" else "null"
  | d => if shown then d.shown else d.write

def Digests.toDoc (shown : Bool) (ds : Digests) : Doc :=
  .obj (ds.map fun (k, v) => (Digests.fieldName shown k, v))

def digests (limit : Option Int := usualLimit) (gapDays : Option Int := usualGap) (algorithm : String := "sha1") :
    Job Digests := do
  let dir ← c.infoDir name
  let fileName := Package.packageFile "version2hash" name (some "json")
  if let some dir := dir then
    if let some d ← cached (Path.join dir fileName) then
      return d.fieldsOf.map fun (k, v) => (.str k, v)
  let listed ← c.versions name limit gapDays
  let mut ds : Digests := []
  for l in listed.getD [] do
    let v ← c.versionDigest name l.version.str? algorithm
    let _ ← l.version.asKey
    ds := ds.filter (fun p => !Doc.same p.1 l.version) ++ [(l.version, Doc.ofStr? v)]
  if let some dir := dir then
    Job.ensureDirectory dir
    Job.writePretty (Path.join dir fileName) (Digests.toDoc false ds)
  return ds

def download (outdir : Option String) (binary : Bool := false) (withDep : Bool := false) : Job (Option String) :=
  match c.kind with
  | .pypi => Pypi.download c name version outdir binary withDep
  | .npmjs => Npmjs.download name version outdir
  | .rubygems => Rubygems.download c name version outdir
  | .packagist => Packagist.download c name version outdir
  | .nuget => Nuget.download name version outdir
  | .maven => Maven.download name version outdir
  | .jcenter => Jcenter.download name version outdir
  | .jitpack => Jitpack.download name version outdir
  | _ => return none

def install (o : RunOptions := {}) : Job Unit :=
  match c.kind with
  | .pypi => Pypi.install c name version o
  | .npmjs => Npmjs.install name version o
  | .rubygems => Rubygems.install name version o
  | .packagist => Packagist.install name version o
  | .nuget => Nuget.install name version o
  | .maven => Maven.install name version o
  | _ => return

def installFile (file : String) (o : RunOptions := {}) : Job Unit :=
  match c.kind with
  | .pypi => Pypi.installFile file o
  | .npmjs => Npmjs.installFile file o
  | .rubygems => Rubygems.installFile file o
  | _ => return

def uninstall (o : RunOptions := {}) : Job Unit :=
  match c.kind with
  | .pypi => Pypi.uninstall c name version o
  | .npmjs => Npmjs.uninstall name version o
  | .rubygems => Rubygems.uninstall name version o
  | .packagist => Packagist.uninstall name version o
  | .maven => Maven.uninstall name version
  | _ => return

def dependencies (flatten : Bool := false) (cacheOnly : Bool := false) : Job Doc :=
  match c.kind with
  | .pypi => Pypi.dependencies c name version flatten cacheOnly
  | .npmjs => Npmjs.dependencies c name version flatten cacheOnly
  | .rubygems => Rubygems.dependencies c name version flatten cacheOnly
  | .packagist => Packagist.dependencies c name version flatten cacheOnly
  | .maven => Maven.dependencies c (c.metadataFile name version) name version flatten cacheOnly
  | .jcenter => Jcenter.dependencies c name version
  | .jitpack => Jitpack.dependencies c name version
  | _ => return .null

def depFile (flatten : Bool := false) (cacheOnly : Bool := false) : Job (Option String) := do
  match ← c.infoDir name with
  | none => return none
  | some dir =>
    Job.ensureDirectory dir
    let _ ← c.dependencies name version flatten cacheOnly
    return some (Path.join dir (c.depName name version flatten))

def installDeps (o : RunOptions := {}) : Job Unit := do
  match c.kind with
  | .pypi => Pypi.installDeps c name version (← c.depFile name version) o
  | .npmjs => Npmjs.installDeps c name version o
  | .rubygems => Rubygems.installDeps c name version o
  | .packagist => Packagist.installDeps c name version o
  | .maven => Maven.installDeps (← c.dependencies name version) o
  | _ => return

def hasInstall : Doc :=
  match c.kind with
  | .pypi | .npmjs | .rubygems | .packagist | .nuget | .maven => .bool true
  | _ => .null

/-- Whether a package has tests; null if that is not known. -/
def hasTest : Job Doc :=
  match c.kind with
  | .npmjs => Npmjs.hasTest c name version
  | .pypi | .rubygems | .packagist | .nuget | .maven => return .bool false
  | _ => return .null

def main (o : RunOptions := {}) : Job Unit :=
  match c.kind with
  | .pypi => Pypi.main c name version o
  | .npmjs => Npmjs.main c name version o
  | .rubygems => Rubygems.main name o
  | .packagist => Packagist.main c name version o
  | _ => return

/-- Whether a package has programs; null if that is not known. -/
def hasMain : Job Doc :=
  match c.kind with
  | .pypi => return .bool true
  | .npmjs => Npmjs.hasMain c name version
  | .rubygems => do return .bool (← Rubygems.hasMain name)
  | .packagist => do return .bool (← Packagist.hasMain c name version)
  | .maven => return .bool false
  | _ => return .null

/-- Loads a package and calls what it offers. -/
def exercise (o : RunOptions := {}) : Job Unit :=
  match c.kind with
  | .pypi => Pypi.exercise c name version o
  | .npmjs => Npmjs.exercise name o
  | .rubygems => Rubygems.exercise name o
  | .packagist => Packagist.exercise name o
  | _ => return

/-- Whether a package can be loaded; null if that is not known. -/
def hasExercise : Job Doc :=
  match c.kind with
  | .pypi | .rubygems => return .bool true
  | .npmjs => Npmjs.hasExercise c name version
  | .packagist => do return .bool (← Packagist.hasExercise c name version)
  | .maven => return .bool false
  | _ => return .null

/-- The result of running a package that was kept in a directory, if there is one. -/
def dynamicResult (outdir : String) (version : Option String) (asRoot : Bool := false) : Job (Option Doc) := do
  let file := Path.join outdir (Package.dynamicFile name version asRoot false false)
  if ← Job.exists? file then return some (← Job.readMessage "DynamicAnalysis" file) else return none

end Vetting.Registry.Client

/-! ## Trying out packages

Looking a package up, installing it and running it, with the client for its language.
-/

namespace Vetting.Registry.Trial

def absolute? (p : Option String) : Job (Option String) := do
  match p with
  | some s => if s.isEmpty then return p else return some (← Job.absolute s)
  | none => return none

variable (name : String) (l : Language)

/-- Asks for all that the registry knows about a package and its versions. -/
def lookUp (cacheDir version : Option String := none) (isolate : Bool := false) : Job Unit := do
  let c ← Client.forLanguage l (← absolute? cacheDir) isolate
  let _ ← c.metadata name version
  let _ ← c.versions name (some (-1))

def findDeps (cacheDir version : Option String := none) (isolate : Bool := false) : Job Unit := do
  let c ← Client.forLanguage l (← absolute? cacheDir) isolate
  let _ ← c.dependencies name version

def needsDirectory : Bool := l = .javascript || l = .php

/-- Installs what a package depends on and then the package, as its options say. -/
def installWithDeps (c : Client) (name : String) (version : Option String) (o : RunOptions) : Job Unit := do
  c.installDeps name version { asRoot := o.asRoot, installDir := o.installDir }
  c.install name version { o with timeout := none }

def install (name : String) (l : Language) (cacheDir version : Option String) (o : RunOptions) : Job Unit := do
  let outdir ← absolute? o.outdir
  let installDir ← absolute? o.installDir
  let c ← Client.forLanguage l (← absolute? cacheDir)
  if needsDirectory l && installDir.isNone && !o.asRoot then
    let dir ← Job.temporaryDir "install-"
    installWithDeps c name version { o with outdir, installDir := some dir }
    Job.removeTree dir
  else installWithDeps c name version { o with outdir, installDir }

/-- Installs a package if it does something then, and runs and loads it if it can be. -/
def runAll (c : Client) (name : String) (version : Option String) (o : RunOptions) : Job Unit := do
  if c.hasInstall.truthy then installWithDeps c name version o
  if (← c.hasMain name version).truthy then c.main name version o
  if (← c.hasExercise name version).truthy then c.exercise name version o
  let _ ← c.hasTest name version

def tryOut (cacheDir version : Option String) (o : RunOptions) : Job Unit := do
  let outdir ← absolute? o.outdir
  let c ← Client.forLanguage l (← absolute? cacheDir)
  if needsDirectory l && !o.asRoot then
    let dir ← Job.temporaryDir "install-"
    runAll c name version { o with outdir, installDir := some dir }
    Job.removeTree dir
  else runAll c name version { o with outdir, installDir := none }

end Vetting.Registry.Trial
