import Vetting.Survey.Selection

/-!
# Summaries of findings

The results of many analyses, summed up by what was found: which packages use an interface, talk to a
host, read a file, and so on.
-/

namespace Vetting.Survey

open Registry Analysis Job Api

/-! ## Tallies -/

abbrev Tally := Table String (List String)

namespace Tally

variable (t : Tally)

def note (finding package : String) : Tally := Table.modify t finding [] (· ++ [package])

def noteAll (findings : List String) (package : String) : Tally :=
  findings.foldl (fun t f => t.note f package) t

def counts : Doc := .obj (t.map fun (k, ps) => (k, .int ps.length))

def packages : Doc := .obj (t.map fun (k, ps) => (k, .arr ((distinct ps).map .str)))

def sizes : Doc := .obj (t.map fun (k, ps) => (k, .int (distinct ps).length))

def save (outfile : String) (detailed : Bool) : Job Unit := do
  if detailed then
    writePretty outfile t.packages
    writePretty (outfile ++ ".stats") t.sizes
  else writePretty outfile t.counts

end Tally

def analysedKey : String := "analyzed"

structure Summary where
  infile : String
  outfile : String
  language : Language
  registry : Option Kind := none
  outdir : Option String := none
  cacheDir : Option String := none
  skipFile : Option String := none
  /-- The checks of compared versions that are asked for. -/
  options : Doc := .arr []
  /-- Write which packages were found. -/
  mapping : Bool := false
  /-- Tell uses in different files apart. -/
  fileNames : Bool := false
deriving Inhabited

namespace Summary

variable (s : Summary) (apis : List String)

def client : Job Client := Client.forLanguage s.language s.cacheDir true

def results : Except Fault String :=
  match s.outdir with
  | some d => .ok d
  | none => .error (.cause .wrongType)

def names : Job (List String) := do (← readSheet s.infile).rows.mapM fun r => nameOf r

def tally (find : String → Tally → Job Tally) : Job Tally := do
  (← readSheet s.infile).rows.foldlM (fun t r => do find (← nameOf r) t) []

def fileOf (n : Api.Node) : Api.FileInfo := ((n.range.bind Api.Span.start).bind Api.Place.fileInfo).getD {}

def useFinding (n : Api.Node) : String :=
  if s.fileNames then (fileOf n).filename ++ ":" ++ n.fullName else n.fullName

def uses : Job Unit := do
  let c ← s.client
  let l ← analysed s.language
  let t ← s.tally fun name t => do
    match ← usesOf l c name (← s.results) none none true with
    | none => return t
    | some r => return (t.note analysedKey name).noteAll ((← r.first).uses.map s.useFinding) name
  t.save s.outfile s.mapping

def flows (s : Summary) : Job Unit := do
  let c ← s.client
  let l ← analysed s.language
  let t ← s.tally fun name t => do
    match ← flowsOf l c name (← s.results) none none true with
    | none => return t
    | some d =>
      let kinds := (listOf d "flows").map fun f => textOf ((f.field? "info").getD (.obj [])) "name"
      return (t.note analysedKey name).noteAll kinds name
  t.save s.outfile true

def activityFindings (k : DataKind) (report : Doc) : List String :=
  let activity := (report.field? "process_activity").getD (.obj [])
  let texts (list : String) (f : Doc → String) := (listOf activity list).map f
  let filled (xs : List String) := xs.filter fun s => !s.isEmpty
  match k with
  | .domain => filled (texts "network_activities" (textOf · "domain"))
  | .ip => filled (texts "network_activities" (textOf · "ip"))
  | .file => texts "file_activities" fun a => textOf a "filepath" ++ ":" ++ textOf a "mode"
  | .process => texts "child_process_activities" fun a => textOf a "user" ++ ":" ++ textOf a "cmdline"
  | .sensitive => texts "sensitive_activities" fun a =>
      textOf a "user" ++ ":" ++ textOf a "syscall" ++ ":" ++ textOf a "cmdline"
  | _ => []

/-- Sums up what packages do when they run, with and without the rights of the administrator. -/
def activities (k : DataKind) : Job Unit := do
  let _ ← s.client
  let t ← s.tally fun name t => [false, true].foldlM (fun t asRoot => do
    match ← Client.dynamicResult name (← s.results) none asRoot with
    | none => return t
    | some d => return (t.note analysedKey name).noteAll (activityFindings k d) name) t
  t.save s.outfile s.mapping

def dependencies : Job Unit := do
  let _ ← storedGraph s.language true

def reverseDependencies : Job Unit := do
  let g ← storedGraph s.language
  let mut found : Table String Doc := []
  for r in (← readSheet s.infile).rows do
    let registry ← Package.Row.cell r.cells "Package Manager"
    let name ← Package.Row.cell r.cells "Package Name"
    let some word := registry.filter fun w => !w.isEmpty && w != "N/A" | continue
    if s.registry != some (← Kind.ofWord word) then continue
    if let some name := name then
      if g.hasNode (.text name) then
        found := found.set name (.arr ((← ancestors g (.text name)).map Literal.toDoc))
  writePretty s.outfile (.obj found)

/-! ## Compared versions -/

/-- The interfaces of a language that are of interest. -/
def notableApis : Language → Option (List String)
  | .python => some ["eval", "exec", "base64.b64decode"]
  | .ruby => some ["eval", "exec", "builtin_xstring", "Base64.urlsafe_decode64"]
  | .javascript => some ["eval", "child_process.exec", "child_process.execFileSync", "Base64.decode", "Buffer.from",
    "Buffer"]
  | .php => some ["eval", "exec", "shell_exec", "base64_decode"]
  | .java => some ["java.net.URLClassLoader.loadClass", "javax.script.ScriptEngine.eval",
    "java.lang.System.loadLibrary", "java.lang.Runtime.exec", "java.util.Base64.Decoder.decode"]
  | _ => none

def setTime (ts : List (Doc × Time.Stamp)) (v : Doc) (t : Time.Stamp) : List (Doc × Time.Stamp) :=
  if ts.any fun p => Doc.same p.1 v then ts.map fun p => if Doc.same p.1 v then (p.1, t) else p
  else ts ++ [(v, t)]

/-- The versions of a package with their times, which one language's registry does not tell. -/
def versionTimes (c : Client) (name : String) : Job (List (Doc × Time.Stamp)) := do
  let some versions ← c.versions name | fault .wrongType
  versions.foldlM (fun ts v => do
    if s.language = .java then
      return setTime ts v.version ((Time.Stamp.ofParts? 2019 1 1 0 0 0 0).getD default)
    match v.time with
    | some t => return setTime ts v.version t.naive
    | none => fault .badValue) []

def usesSomeApart (compared : Doc) : Except Fault Bool := do
  apis.anyM fun a => do
    if !(← (← compared.at "all_apis").has a) then return false
    return !(← (← compared.at "common_apis").has a)

/-- Whether a version uses an interface of interest that sets it apart. -/
def isApart (compared : Doc) (version : Doc) : Except Fault Bool := do
  let .str v := version | return false
  if !(← compared.has v) then return false
  apis.anyM fun a => do (← (← compared.at v).at "uniq_apis").has a

/-- What an interest says: nothing, that a package is of interest, or is to be passed over. -/
def judgeApis (now : Time.Stamp) (times : List (Doc × Time.Stamp)) (compared : Doc) : Except Fault (Option Bool) := do
  if !(← usesSomeApart apis compared) then return none
  let bad ← times.filterM fun (v, _) => isApart apis compared v
  let recent := bad.any fun (_, t) => now.micros - t.micros < 730 * Time.dayMicros
  return some (recent && bad.length * 2 < times.length)

/-- Lists the packages of which some versions use more interfaces or permissions than others. -/
def compared (s : Summary) (byApi byPermission : Bool) : Job Unit := do
  let c ← s.client
  let some apis := notableApis s.language | stop (.missingKey s.language.shownKey)
  let mut found : Table String Doc := []
  for name in ← s.names do
    let file := Path.join (← s.results) (Package.packageFile "compare_versions" name (some "json"))
    let times ← s.versionTimes c name
    if !(← exists? file) then continue
    let compared ← readDoc file
    if !(← compared.has "all_apis") then continue
    if !(← compared.has "common_apis") then continue
    if byApi then
      match ← judgeApis apis (← get).now times compared with
      | some true => found := found.set name compared
      | some false => continue
      | none => pure ()
    if byPermission then
      if ← anyNotable (← (← compared.at "all_permissions").items) then found := found.set name compared
  writePretty s.outfile (.obj found)

def maxSharing : Nat := 200

def addHosts (byPackage : Table String (List String)) (byHost : Doc) : Except Fault (Table String (List String)) := do
  (← byHost.entries).foldlM (fun t (host, packages) => do
    if host = analysedKey then return t
    let packages ← packages.items
    if packages.length > maxSharing then return t
    packages.foldlM (fun t p => do
      let p ← p.asKey
      return match p with
        | .str name => Table.modify t name [] (· ++ [host])
        | _ => t) t) byPackage

def installScripts : List String := ["preinstall", "install", "postinstall"]

/-- Writes the found packages, up to the first report, which cannot be written. -/
def saveInstalling (outfile : String) (found : Table String (Table String Doc)) (open? : Bool) : Job Unit := do
  let text := Doc.pretty (.obj (found.map fun (k, v) => (k, .obj v)))
  if open? then
    let closed := "\n  \x7d\n\x7d"
    writeText outfile (String.ofList (text.toList.take (text.length - closed.length)) ++ ",\n    \"astgen\": ")
    fault .wrongType
  else writeText outfile text

/-- Lists the packages with scripts for their installation that talk to hosts few others talk to. -/
def installing : Job Unit := do
  let file (word : String) :=
    Path.join (Path.parent s.infile) ((s.registry.map Kind.word).getD "None" ++ "_" ++ word ++ "_mapping.json")
  let domains ← readDoc (file "domain")
  let ips ← readDoc (file "ip")
  let hosts ← addHosts (← addHosts [] domains) ips
  let c ← s.client
  let l ← analysed s.language
  let mut found : Table String (Table String Doc × Bool) := []
  for r in (← readSheet s.infile).rows do
    let some name ← Package.Row.cell r.cells "package name" | continue
    let some own := hosts.get? name | continue
    if l != .javascript then stop (.failure "Not implemented yet!")
    let info ← c.metadata name
    if !(← info.has "scripts") then continue
    let scripts ← info.at "scripts"
    if ← installScripts.anyM fun k => scripts.has k then
      let report ← usesOf l c name (← s.results) none none true
      let fields := [("network", Doc.arr (own.map .str)), ("scripts", scripts)]
      found := found.set name (if report.isSome then (fields, true) else (fields ++ [("astgen", .null)], false))
  match found.span fun p => !p.2.2 with
  | (_, []) => saveInstalling s.outfile (found.map fun (k, v) => (k, v.1)) false
  | (before, first :: _) => saveInstalling s.outfile ((before ++ [first]).map fun (k, v) => (k, v.1)) true

/-! ## Versions that stand apart -/

def versionNumbers (v : Doc) : Except Fault (List Int) := do
  (Text.splitOn (Text.stripOf (← v.text) "v") ".").mapM fun part =>
    if part.isEmpty then .ok 0
    else match Text.intOf? part with
      | some n => .ok n
      | none => .error (.cause .badValue)

/-- The versions of a package with their times, the highest first. -/
def versionsDown (c : Client) (name : String) : Job (List (Doc × Time.Stamp)) := do
  let some versions ← c.versions name (some (-1)) | fault .wrongType
  let timed ← versions.mapM fun v => do
    match v.time with
    | some t => return (← versionNumbers v.version, v.version, t)
    | none => fault .badValue
  return (← sortDescending (fun a b => .ok (a.1 < b.1)) timed).map Prod.snd

def skipped : Job (Option Doc) := do
  match s.skipFile.filter fun p => !p.isEmpty with
  | some p => if ← exists? p then return some (← readDoc p) else return none
  | none => return none

def isSkipped (skip : Option Doc) (file : String) : Except Fault Bool := do
  let some d := skip | return false
  if !d.truthy then return false
  if !(← d.has "filepath") then return false
  (← (← d.at "filepath").items).anyM fun part => do return Text.contains file (← part.asText)

/-- The uses in a report that set a version apart, with their files and sources. -/
def apartUses (report : Api.Report) (apart : Doc) (skip : Option Doc) : Except Fault (Table String Doc) := do
  (← report.first).uses.foldlM (fun (t : Table String Doc) n => do
    if !(← apart.has n.fullName) then return t
    let file := (fileOf n).file
    if ← isSkipped skip file then return t
    let old := ((t.get? n.fullName).getD (.arr [])).itemsOf
    return t.set n.fullName (.arr (old ++ [.arr [.str file, .str n.source]]))) []

def isLatest (before time after : Time.Stamp) : Except Fault Bool := do
  if ← before.lt time then after.lt time else return false

/-- Whether one of the found versions came later than both its neighbours. -/
def hasLateOld (found : Table String Doc) : List (Doc × Time.Stamp) → Except Fault Bool
  | a :: b :: c :: rest => do
    if (found.has (b.1.strD "")) && b.1.isStr then
      if ← isLatest a.2 b.2 c.2 then return true
    hasLateOld found (b :: c :: rest)
  | _ => .ok false

/-- What is known about a version that stands apart, if it does. -/
def apartDetail (l : Language) (c : Client) (skip : Option Doc) (versions : List (Doc × Time.Stamp))
    (name version : String) (compared : Doc) : Job (Option (Table String Doc)) := do
  let apis ← compared.at "uniq_apis"
  if (← apis.size) = 0 then return none
  if (← (← compared.at "uniq_permissions").size) = 0 then return none
  let some report ← usesOf l c name (← s.results) none (some version) true | fault .noMember
  let uses ← apartUses report apis skip
  if uses.isEmpty then return none
  return some [("time", .arr (versions.map fun (v, t) => .str (v.shown ++ ":" ++ t.textWith " "))),
    ("api2filepath", .obj uses)]

/-- Lists the versions of packages that stand apart from the others, with their uses. -/
def correlated (lateOld : Bool) : Job Unit := do
  let byPackage ← readDoc s.infile
  let skip ← s.skipped
  let c ← s.client
  let l ← analysed s.language
  let mut found : Table String Doc := []
  for (name, byVersion) in ← byPackage.entries do
    let versions ← versionsDown c name
    let mut details : Table String (Table String Doc) := []
    for (version, compared) in ← byVersion.entries do
      if !(versions.any fun v => Doc.same v.1 (.str version)) then continue
      if let some d ← s.apartDetail l c skip versions name version compared then
        details := details.set version d
    if details.isEmpty then continue
    let similar := Text.join "," details.keys
    let doc : Table String Doc := details.map fun (v, d) => (v, .obj (d ++ [("similar_versions", .str similar)]))
    let keep ← if lateOld then hasLateOld doc versions else pure true
    if keep then found := found.set name (.obj doc)
  writePretty s.outfile (.obj found)

def run (k : Option DataKind) : Job Unit := do
  let lateOld ← s.options.has "privileged_recent_old_version"
  let byApi ← s.options.has "enable_api_interest_filtering"
  let byPermission ← s.options.has "enable_permission_interest_filtering"
  match k with
  | some .api => s.uses
  | some .dependency => s.dependencies
  | some .reverseDep => s.reverseDependencies
  | some .compareAst => s.compared byApi byPermission
  | some .taint => s.flows
  | some .author | some .permission => stop (.failure "Not implemented yet!")
  | some .installWithNetwork => s.installing
  | some .correlateInfoApiCompareAst => s.correlated lateOld
  | some k => s.activities k
  | none => stop (.failure "Unhandled data type None")

end Summary

def readOptions (file : Option String) : Job Doc := do
  match file.filter fun p => !p.isEmpty with
  | some p => if ← exists? p then readDoc p else return .arr []
  | none => return .arr []

end Vetting.Survey
