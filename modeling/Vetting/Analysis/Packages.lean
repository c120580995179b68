import Vetting.Analysis.Uses
import Vetting.Command.Commands
import Vetting.Registry.Service
import Vetting.Taint.Entries

/-!
# Analyses of packages

A package is fetched from its registry and analysed together with all that it depends on. Results are
kept in a directory, so that every package is analysed once.
-/

namespace Vetting.Analysis

open Registry Command Job Path

variable (l : Language) (c : Client) (t : Target)

def analysed : Except Fault Language :=
  match l with
  | .python | .javascript | .java | .php | .ruby => .ok l
  | l => .error (.failure ("Proxy not available for language: " ++ l.word))

def flowsInScript (i : Input) (name : Option String) : Job Unit := do
  let binary ← writeBinaryConfig i.config
  let _ ← exec "javascript taint"
    [some "node", some "jsprime_wrapper.js", name, some i.path, some binary, some i.outfile]
    (some "static_proxy/jsprime")
  writeMessage "ModuleStatic" i.outfile (← readBinary "ModuleStatic" i.outfile)
  remove binary

/-- Searches a Java package for flows with the program for it. -/
def flowsInJava (i : Input) : Job Unit := do
  if ← isDirectory i.path then
    stop (pathFailure "FlowDroid doesn't take a directory as input: %s" i.path)
  let _ ← exec "java taint"
    [some "java", some "-jar", some "soot-infoflow-cmd/target/soot-infoflow-cmd-jar-with-dependencies.jar",
      some "-a", none, some "-p", some "platforms/", some "-s", none] (some "static_proxy/flowdroid")

def findFlows (inpath outfile : String) (config name : Option String) : Job Unit := do
  if l = .csharp then return
  let i ← Input.prepare l inpath outfile none config
  match l with
  | .python => Taint.Vulnerabilities.check i.path i.config i.outfile
  | .javascript => flowsInScript i name
  | .java => flowsInJava i
  | .php => Taint.Entries.check i.config
  | .ruby => Taint.Warnings.check i.path i.config i.outfile
  | _ => return
  i.cleanUp

/-- The kept result of an analysis, or else that of a new one, if the package can be had. -/
def keptResult (purpose shape file name : String) (version : Option String) (cacheOnly : Bool)
    (analyse : String → Job Unit) : Job (Option Doc) := do
  if ← exists? file then return some (← readMessage shape file)
  if cacheOnly then return none
  let dir ← temporaryDir purpose
  let _ ← c.download name version (some dir)
  let result ← match ← list dir with
    | [] => pure none
    | first :: _ => do
      analyse (join dir first)
      if ← exists? file then pure (some (← readMessage shape file)) else pure none
  removeTree dir
  return result

def usesOf (name outdir : String) (config version : Option String) (cacheOnly : Bool := false) :
    Job (Option Api.Report) := do
  let file := join outdir (Package.messageFile "astgen" name version false)
  let d ← keptResult c "astfilter-" "PkgAstResults" file name version cacheOnly fun p =>
    search l { inpath := p, outfile := file, config, name := some name, version }
  return d.map Api.Report.ofDoc

def flowsOf (name outdir : String) (config version : Option String) (cacheOnly : Bool := false) : Job (Option Doc) :=
  let file := join outdir (Package.messageFile "taint" name version false)
  keptResult c "taint-" "ModuleStatic" file name version cacheOnly fun p =>
    findFlows l p file config (some name)

structure Target where
  name : String
  outdir : String
  cacheDir : Option String := none
  config : Option String := none
  version : Option String := none
  manager : Option Kind := none
  /-- Take the latest versions of the packages that the package depends on. -/
  ignoreDepVersion : Bool := false
  /-- Leave out the packages that the package depends on. -/
  ignoreDep : Bool := false
deriving Inhabited

def versionOf : Doc → Option String
  | .null => none
  | d => some d.shown

def depsOf : Job (Option (List (String × Option String))) := do
  match ← attempt (c.dependencies t.name t.version true) with
  | .error f => if f.isOrdinary then return none else stop f
  | .ok deps =>
    return some ((← deps.entries).map fun (k, v) => (k, if t.ignoreDepVersion then none else versionOf v))

/-- Keeps in a report whether a package with all that it depends on is suspicious. -/
def filterPackage : Job Unit := do
  let c ← match t.manager with
    | none => Client.forLanguage l t.cacheDir true
    | some k => do Client.make (← k.served) t.cacheDir true
  let file := join t.outdir (Package.messageFile "astfilter" t.name t.version false)
  if ← exists? file then return
  let some own ← usesOf l c t.name t.outdir t.config t.version | return
  let others ← if t.ignoreDep then pure [] else do
    match ← depsOf c t with
    | none => return
    | some deps => deps.filterMapM fun (name, version) => usesOf l c name t.outdir t.config version
  let v ← verdictOf (own :: others) t.config
  writeReport file (← record own v)

/-- Settings with the sources and sinks of other packages, in a file of their own. -/
def combinedConfig (config : Option String) (reports : List Doc) : Job String := do
  let c ← readConfig config
  let nodes (field : String) (d : Doc) : List Api.Node :=
    (Api.listOf d field).map fun g => .ofDoc ((g.field? "node").getD (.obj []))
  let new := reports.flatMap fun d => nodes "sources" d ++ nodes "sinks" d
  let file ← temporaryFile "configpath-"
  writeMessage "AstLookupConfig" file { c with apis := c.apis ++ new }.toDoc
  return file

/-- Searches a package for flows, taking into account those of all that it depends on. -/
def findFlowsWithDeps : Job Unit := do
  let c ← Client.forLanguage l t.cacheDir true
  let file := join t.outdir (Package.messageFile "taint" t.name t.version false)
  if ← exists? file then return
  if t.ignoreDep then
    let _ ← flowsOf l c t.name t.outdir t.config t.version
  else
    match ← depsOf c t with
    | none => return
    | some deps =>
      let reports ← deps.filterMapM fun (name, version) => flowsOf l c name t.outdir t.config version
      let config ← combinedConfig t.config reports
      let _ ← flowsOf l c t.name t.outdir (some config) t.version
      remove config

/-- Searches a package for flows: one at a path, or else one that its registry gives. -/
def taint (inpath : Option String) : Job Unit := do
  let l ← analysed l
  let there ← match inpath with
    | some p => exists? p
    | none => pure false
  match there, inpath with
  | true, some p =>
    findFlows l p (join t.outdir (base (Text.rstripOf p "/") ++ ".astgen.txt")) t.config (some t.name)
  | _, _ => findFlowsWithDeps l t

def scan : Job Unit := do
  let l ← analysed l
  filterPackage l { t with manager := none }
  findFlowsWithDeps l t

/-! ## The program that searches Python packages

The search for uses of functions as a program of its own, for sources that another version of the
language can read.
-/

def searchForm : Command.Form :=
  { items := [place "inpath", place "outfile", option "root" "b",
      option "package_name" "n", packageVersion, option "configpath" "c"] }

/-- Searches the sources at a path by settings. A source that cannot be read ends the search. -/
def searchSources (config : Api.Config) (s : Search) : Job Unit := do
  let (files, root) ← sourceFiles .python s.inpath s.root
  if files.isEmpty then stop (pathFailure "No input files from %s for language python3" s.inpath)
  let uses ← files.mapM (pythonUses config root)
  writeReport s.outfile (reportOn "PYTHON" s.inpath s.name s.version config uses.flatten)

def searchProgram (argv : List String) : Job Unit := do
  let values ← read searchForm argv
  let text? (k : String) : Option String := ((values.get? k).getD .null).str?
  let config ← readConfig (text? "configpath")
  searchSources config
    { inpath := (text? "inpath").getD "", outfile := (text? "outfile").getD "", root := text? "root"
      name := text? "package_name", version := text? "package_version" }

end Vetting.Analysis
