import Vetting.Markup
import Vetting.Registry.Client

/-!
# Artifacts of the Java registries

The name of an artifact is its group and its own name with a slash between them.
-/

namespace Vetting.Registry.Artifact

open Client Markup

variable (name : String) (version : Option String) (c : Client) (base : String)

def split : Except Fault (String × String) :=
  match Text.splitOn name "/" with
  | [group, own] => .ok (group, own)
  | _ => .error (.cause .badValue)

def file (suffix : String) : Except Fault String := do
  return (← split name).2 ++ "-" ++ Package.shown version ++ "." ++ suffix

def directory : Except Fault String := do
  let (group, own) ← split name
  return Text.replace group "." "/" ++ "/" ++ own ++ "/" ++ Package.shown version

def path (suffix : String) : Except Fault String := do
  return (← directory name version) ++ "/" ++ (← file name version suffix)

def listPath : Except Fault String := do
  let (group, own) ← split name
  return Text.replace group "." "/" ++ "/" ++ own ++ "/maven-metadata.xml"

def kinds : List String := ["jar", "aar", "war"]

def coordinates : String :=
  Text.replace name "/" ":" ++ ":" ++ Package.shown version

def localDir : Job String := do
  Job.expandHome (Path.join "~/.m2/repository" (← directory name version))

/-- Gets the file of an artifact in the first kind that is there: its path. -/
def downloadKinds (source : List String) (name : String) (version outdir : Option String) :
    List String → Job (Option String)
  | [] => return none
  | kind :: rest => do
    let artifact := coordinates name version ++ (if kind = "jar" then "" else ":" ++ kind)
    Job.execute "mvn dependency:get" (["mvn", "dependency:get"] ++ source
      ++ ["-Dartifact=" ++ artifact, "-Dtransitive=false", "-Ddest=" ++ Package.shown outdir])
    Job.removeTree (← localDir name version)
    let p ← below outdir (← file name version kind)
    if ← Job.exists? p then return some p
    downloadKinds source name version outdir rest

def download (source : List String) (name : String) (version outdir : Option String) :
    Job (Option String) := downloadKinds source name version outdir kinds

def isFilled (p : String) : Job Bool := do
  match ← Job.lookup p with
  | some (.file (.text s)) => return !s.isEmpty
  | some (.file (.bytes bs)) => return !bs.isEmpty
  | some _ => return true
  | none => return false

/-- The digest of the first file of an artifact in a directory. -/
def digestIn (dir : String) (name : String) (version : Option String) (algorithm : String) :
    List String → Job (Option String)
  | [] => return none
  | kind :: rest => do
    let p := Path.join dir (← file name version kind)
    if !(← isFilled p) then digestIn dir name version algorithm rest
    else
      let command := algorithm ++ "sum"
      let text ← Job.outputText (← Job.output? command [command, p])
      return (Text.splitOn text " ").head?

def digest (source : List String) (name : String) (version : Option String) (algorithm : String) :
    Job (Option String) := do
  let dir ← Job.temporaryDir "get_version_hash-"
  let _ ← download source name version (some dir)
  let d ← digestIn dir name version algorithm kinds
  Job.removeTree dir
  return d

def knowsAlgorithm (algorithm : String) : Bool := algorithm = "sha1" || algorithm = "md5"

/-! ## Metadata -/

/-- The kept metadata of an artifact, if there are any in this format. -/
def keptMetadata (dir : Option String) (name : String) (version : Option String) : Job (Option (Option Element)) := do
  let some dir := dir | return none
  let file := Path.join dir (c.metadataName name version)
  if !(← Job.exists? file) then return none
  if c.metadataFormat = some "pom" then return some (some (← Xml.parse (← Job.readText file)))
  else return some none

def keepMetadata (dir : Option String) (name : String) (version : Option String) (text : String) : Job Unit := do
  let some dir := dir | return
  Job.ensureDirectory dir
  if c.metadataFormat = some "pom" then
    Job.writeText (Path.join dir (c.metadataName name version)) text

def listedVersions (list : Element) : List (Option String) :=
  (((list.named "versioning").flatMap fun e => e.named "versions").flatMap fun e =>
    e.named "version").map Element.text

def latestIn (list : Element) : Except Fault (Option String) :=
  match (list.named "versioning").flatMap fun e => e.named "latest" with
  | e :: _ => .ok e.text
  | [] => .error (.cause .noMember)

def fetchList (name : String) : Job (Option Element) := do
  let url := base ++ (← listPath name)
  match ← Job.attempt do Xml.parse (← Job.fetchText url) with
  | .ok e => return some e
  | .error _ => return none

/-- The version to take: the given one, or else the latest if the registry tells it. -/
def chosenVersion (name : String) (version : Option String) : Job (Option String) := do
  if version.isSome then return version
  match ← fetchList base name with
  | some list => if list.children.isEmpty then return none else latestIn list
  | none => return none

/-- What a registry says about an artifact, if it says anything. -/
def fetchMetadata (name : String) (version : Option String) : Job (Option Element) := do
  let dir ← c.infoDir name
  match ← keptMetadata c dir name version with
  | some kept => return kept
  | none =>
    let found ← Job.attempt do
      let chosen ← chosenVersion base name version
      let text ← Job.fetchText (base ++ (← path name chosen "pom"))
      return (text, ← Xml.parse text)
    match found with
    | .error _ => return none
    | .ok (text, info) =>
      keepMetadata c dir name version text
      return some info

def inSpace (tag : String) : String := "\x7bhttp://maven.apache.org/POM/4.0.0\x7d" ++ tag

def developers (info : Element) : List Element := info.inside.filter fun e => e.tag = inSpace "developer"

def textDoc (e : Element) : Doc := Doc.ofStr? e.text

end Vetting.Registry.Artifact

/-! ## Artifacts of the central Java registry

What an artifact depends on is found by giving its metadata to the command that draws the tree of
dependencies.
-/

namespace Vetting.Registry.Maven

open Client Markup

def base : String := "https://repo1.maven.org/maven2/"

variable (c : Client) (name : String) (version : Option String) (metadataFile : Job (Option String))

def metadata (version : Option String := none) : Job (Option Element) :=
  Artifact.fetchMetadata c base name version

/-- The greatest numeric versions, at most as many as asked for; a short list is kept as it is. -/
def thin (limit : Option Int) (vs : List (Option String)) : Except Fault (List (Option String)) := do
  let some limit := limit | throw (.cause .wrongType)
  if (vs.length : Int) ≤ limit then return vs
  let names ← vs.mapM fun v =>
    match v with
    | some s => Except.ok s
    | none => .error (.cause .noMember)
  let numeric := names.filter Package.isNumeric
  if limit ≤ 0 then return numeric.map some
  let keyed ← numeric.mapM fun v => do return (← Package.components v, v)
  return ((keyed.mergeSort fun a b => !decide (a.1 < b.1)).take limit.toNat).map fun p => some p.2

def versions (limit : Option Int) : Job (List Listed) := do
  match ← Artifact.fetchList base name with
  | none => return []
  | some list =>
    return (← thin limit (Artifact.listedVersions list)).map fun v => { version := Doc.ofStr? v }

def author : Job Doc := do
  match ← metadata c name with
  | none => return .obj []
  | some info =>
    let field (d : Element) (k : String) : List (String × Doc) :=
      match d.child? (Artifact.inSpace k) with
      | some e => [(k, Artifact.textDoc e)]
      | none => []
    let developers := (Artifact.developers info).map fun d =>
      Doc.obj (field d "id" ++ field d "name" ++ field d "email")
    return .obj [("groupid", .str ((Text.splitOn name "/").headD "")), ("developers", .arr developers)]

/-- The digest of a version, in the first kind of file for which the registry has one. -/
def digestOf (name version algorithm : String) (group own : String) : List String → Job (Option String)
  | [] => return none
  | kind :: rest => do
    let url := base ++ Text.replace group "." "/" ++ "/" ++ own ++ "/" ++ version ++ "/" ++ own ++ "-"
      ++ version ++ "." ++ kind ++ "." ++ algorithm
    let found ← Job.attempt (Job.fetch url)
    match found with
    | .ok r =>
      if r.ok then return (Text.splitOn r.text " ").head?.filter fun s => !s.isEmpty
      else digestOf name version algorithm group own rest
    | .error _ => digestOf name version algorithm group own rest

def versionDigest (algorithm : String) : Job (Option String) := do
  if !Artifact.knowsAlgorithm algorithm then
    Job.stop (.failure ("algorithm " ++ algorithm ++ " is not supported!"))
  let (group, own) ← Artifact.split name
  digestOf name (Package.shown version) algorithm group own Artifact.kinds

/-! ### Commands -/

def download (outdir : Option String) : Job (Option String) := do
  Artifact.download [] name (← Artifact.chosenVersion base name version) outdir

def install (name : String) (version : Option String) (o : RunOptions) : Job Unit := do
  let chosen ← Artifact.chosenVersion base name version
  let command := ["mvn", "dependency:get", "-Dartifact=" ++ Artifact.coordinates name chosen]
  runCommand "mvn install" (← tracedPackage name version o (Job.words command))

def uninstall : Job Unit := do
  let chosen ← Artifact.chosenVersion base name version
  Job.removeTree (← Artifact.localDir name chosen)

/-! ### Dependencies -/

/-- What a line of a drawn tree says. -/
inductive TreeLine where
  /-- Nothing about a dependency. -/
  | other
  /-- A dependency and its version; whether it is a direct one. -/
  | dependency (name version : String) (direct : Bool)
  /-- A dependency in a form that cannot be understood. -/
  | unclear
deriving BEq, DecidableEq, Inhabited

def TreeLine.ofText (line : String) : TreeLine :=
  let parts := Text.splitOn (Text.stripOf line "\n") " "
  if parts.length ≤ 1 then .other
  else
    match Text.splitOn (parts.getLastD "") ":" with
    | [group, own, _, version, _] => .dependency (group ++ "/" ++ own) version (parts.length = 2)
    | _ => .unclear

/-- Adds what the lines of a drawn tree say, up to one that cannot be understood. -/
def readTree : List String → Found → Found
  | [], f => f
  | line :: lines, f =>
    match TreeLine.ofText line with
    | .other => readTree lines f
    | .dependency name version direct =>
      readTree lines
        { direct := if direct then f.direct.set name (.str version) else f.direct
          all := f.all.set name (.str version) }
    | .unclear => f

def found : Outcome → Found
  | .tree lines => readTree lines {}
  | _ => {}

/-- Draws the tree of what an artifact depends on, next to its metadata. -/
def draw (temp : String) : Job Unit := do
  let some file ← metadataFile | Job.fault .wrongType
  Job.copy file (Path.join temp "pom.xml")
  Job.execute "mvn dependency:tree"
    ["mvn", "dependency:tree", "-DoutputFile=dep_tree.txt", "-DoutputType=text"] (some temp)

/-- The lines of the tree that is drawn in a directory, if it can be drawn and read. -/
def resolve (temp : String) : Job Outcome := do
  let lines ← Job.attempt do
    draw metadataFile temp
    return Text.splitOn (← Job.readText (Path.join temp "dep_tree.txt")) "\n"
  match lines with
  | .ok lines => return .tree lines
  | .error _ => return .nothing

def dependencies (name : String) (version : Option String) (flatten : Bool := false) (cacheOnly : Bool := false) :
    Job Doc := do
  let _ ← metadata c name version
  let dir ← c.infoDir name
  c.keptDeps dir name version flatten cacheOnly fun temp => found <$> resolve metadataFile temp

def installDeps (deps : Doc) (o : RunOptions) : Job Unit := do
  for (name, version) in ← deps.entries do
    install name version.str? { trace := o.trace, stringSize := o.stringSize, asRoot := o.asRoot, outdir := o.outdir }

end Vetting.Registry.Maven

/-! ## Artifacts of a second Java registry -/

namespace Vetting.Registry.Jcenter

open Client Markup

def base : String := "http://jcenter.bintray.com/"

def source : List String := ["-DremoteRepositories=http://jcenter.bintray.com/"]

variable (c : Client) (name : String) (version : Option String)

def metadata (version : Option String := none) : Job (Option Element) :=
  Artifact.fetchMetadata c base name version

def versions : Job (List Listed) := do
  match ← Artifact.fetchList base name with
  | none => return []
  | some list => return (Artifact.listedVersions list).map fun v => { version := Doc.ofStr? v }

def isCompound (d : Element) (k : String) : Bool :=
  match d.child? (Artifact.inSpace k) with
  | some e => !e.children.isEmpty
  | none => false

/-- What is told about a developer: only an identifier that is itself made of elements. -/
def developer (d : Element) : Except Fault Doc := do
  let id := if isCompound d "id" then (d.child? (Artifact.inSpace "id")).map Artifact.textDoc else none
  if isCompound d "name" || isCompound d "email" then throw (.cause .wrongType)
  return .obj (match id with | some t => [("id", t)] | none => [])

def author : Job Doc := do
  match ← metadata c name with
  | none => return .obj []
  | some info =>
    let developers ← ((Artifact.developers info).mapM developer : Except Fault (List Doc))
    return .obj [("groupid", .str ((Text.splitOn name "/").headD "")), ("developers", .arr developers)]

def download (outdir : Option String) : Job (Option String) := do
  Artifact.download source name (← Artifact.chosenVersion base name version) outdir

def versionDigest (algorithm : String) : Job (Option String) := do
  if !Artifact.knowsAlgorithm algorithm then
    Job.stop (.failure ("('algorithm %s is not supported!', " ++ Text.quoted algorithm ++ ")"))
  let dir ← Job.temporaryDir "get_version_hash-"
  let _ ← download name version (some dir)
  let d ← Artifact.digestIn dir name version algorithm Artifact.kinds
  Job.removeTree dir
  return d

def noDependencies : Fault :=
  .failure "not implemented yet! current version only deals with maven central and jar files!"

def dependencies : Job Doc := do
  let _ ← metadata c name version
  Job.stop noDependencies

end Vetting.Registry.Jcenter

/-! ## Artifacts that are built on demand

This registry builds artifacts when they are asked for, so that their metadata come through the
command for artifacts too.
-/

namespace Vetting.Registry.Jitpack

open Client Markup

def source : List String := ["-DremoteRepositories=https://jitpack.io"]

def metadata (c : Client) (name : String) (version : Option String := none) : Job (Option Element) := do
  let dir ← c.infoDir name
  match ← Artifact.keptMetadata c dir name version with
  | some kept => return kept
  | none =>
    let found ← Job.attempt do
      Job.execute "mvn dependency:get" (["mvn", "dependency:get"] ++ source
        ++ ["-Dartifact=" ++ Artifact.coordinates name version ++ ":pom", "-Dtransitive=false"])
      let there ← Artifact.localDir name version
      let text ← Job.readText (Path.join there (← Artifact.file name version "pom"))
      Job.removeTree there
      return (text, ← Xml.parse text)
    match found with
    | .error _ => return none
    | .ok (text, info) =>
      Artifact.keepMetadata c dir name version text
      return some info

def versions (name : String) : Job (List Listed) := do
  let (group, own) ← Artifact.split name
  match ← Job.attempt (Job.fetchDoc ("https://jitpack.io/api/builds/" ++ name)) with
  | .error f => if f.isOrdinary then return [] else Job.stop f
  | .ok info =>
    if !(← info.has group) then return []
    let builds ← info.at group
    if !(← builds.has own) then return []
    let built := (← (← builds.at own).entries).filter fun p => Doc.same p.2 (.str "ok")
    return built.map fun p => { version := .str p.1 }

def download (name : String) (version outdir : Option String) : Job (Option String) :=
  Artifact.download source name version outdir

def versionDigest (name : String) (version : Option String) (algorithm : String) : Job (Option String) := do
  if !Artifact.knowsAlgorithm algorithm then
    Job.stop (.failure ("algorithm " ++ algorithm ++ " is not supported!"))
  Artifact.digest source name version algorithm

def dependencies (c : Client) (name : String) (version : Option String) : Job Doc := do
  let _ ← metadata c name version
  Job.stop Jcenter.noDependencies

end Vetting.Registry.Jitpack
