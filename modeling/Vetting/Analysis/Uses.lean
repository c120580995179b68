import Vetting.Analysis.Input

/-!
# Uses of functions in packages

Sources are searched for calls of the functions that settings list. For Python and JavaScript this is
done here, for other languages by a program of their own.
-/

namespace Vetting.Analysis

open Job

/-- What to look for in which package. -/
structure Search where
  inpath : String
  outfile : String
  root : Option String := none
  config : Option String := none
  name : Option String := none
  version : Option String := none
  /-- Also find out whether the package is suspicious. -/
  assess : Bool := false
deriving BEq, DecidableEq, Inhabited

def reportOn (label path : String) (name version : Option String) (config : Api.Config)
    (uses : List Api.Node) : Api.Report :=
  { packages := [{ name := name.getD (Path.base path), version := version.getD "", language := label
                   config := some config, uses }] }

def pythonUses (config : Api.Config) (root file : String) : Job (List Api.Node) := do
  let source ← readText file
  let tree ← moduleTree source
  let g ← Calls.Python.gather source.toList (.ofConfig config) tree
  return g.calls.map (useOf (fileInfo file root))

def scriptUses (config : Api.Config) (root file : String) : Job (List Api.Node) := do
  let source ← readText file
  match ← treeOf? source with
  | none => return []
  | some tree =>
    let calls ← Calls.JavaScript.gather source.toList (.ofConfig config) (.ofDoc tree)
    return calls.map (useOf (fileInfo file root))

variable (i : Input) (s : Search)

/-- The words that name the directory, the package and the version. -/
def identifyingWords : List (Option String) :=
  let given (flag : String) (v : Option String) : List (Option String) :=
    match v with
    | some v => [some flag, some v]
    | none => []
  given "-b" i.root ++ given "-n" s.name ++ given "-v" s.version

/-- Searches a Python package. For another version of the language another program is asked. -/
def searchPython : Job Unit := do
  -- The directory that paths are given from is settled before the first source is read.
  let before ← attempt do
    let config ← readConfig i.config
    let (files, root) ← sourceFiles .python i.path i.root
    return (config, files, root)
  match before with
  | .error f => if !f.isOrdinary then stop f
  | .ok (config, files, root) =>
    let done ← attempt do
      let uses ← files.mapM (pythonUses config root)
      writeReport i.outfile (reportOn "PYTHON" i.path s.name s.version config uses.flatten)
    match done with
    | .ok _ => return
    | .error (.cause .unparsable) | .error (.cause .badIndent) =>
      let command := [some "python3", some "astgen_py3.py", some i.path, some i.outfile, some "-c", i.config]
        ++ identifyingWords { i with root := some root } s
      let _ ← exec "python3 astgen" command (some "static_proxy")
    | .error f => if !f.isOrdinary then stop f

def searchScript : Job Unit := do
  let config ← readConfig i.config
  let (files, root) ← sourceFiles .javascript i.path i.root
  let uses ← files.mapM (scriptUses config root)
  let report := reportOn "JAVASCRIPT" i.path s.name s.version config uses.flatten
  writeReport i.outfile (← if s.assess then assess report i.config else pure report)

def writeBinaryConfig (config : Option String) : Job String := do
  let some p := config | fault .wrongType
  let message ← readMessage "AstLookupConfig" p
  let binary := p ++ ".bin"
  write binary (.bytes (Message.toBytes "AstLookupConfig" message))
  return binary

def readBinary (shape p : String) : Job Doc := do
  match Message.ofBytes? shape (← readBytes p) with
  | some d => return d
  | none => fault .badMessage

def searchWith (label interpreter script : String) (i : Input) (s : Search) : Job Unit := do
  let binary ← writeBinaryConfig i.config
  let command := [some interpreter, some script, some "-c", some binary, some "-i", some i.path, some "-o",
    some i.outfile] ++ identifyingWords i s
  let _ ← exec label command (some "static_proxy")
  let report := Api.Report.ofDoc (← readBinary "PkgAstResults" i.outfile)
  writeReport i.outfile (← if s.assess then assess report i.config else pure report)

/-- The words that tell the program for Java what kind of file it is given. -/
def javaWords (path : String) : Job (List String) := do
  if Text.endsWith path ".apk" then
    return ["-android_jar_dir", "platforms/", "-intype", "APK-process_dir", path]
  if Text.endsWith path ".dex" then
    return ["-android_jar_dir", "platforms/", "-intype", "DEX", "-process_dir", path]
  if Text.endsWith path ".java" then return ["-intype", "SOURCE", "-process_dir", Path.parent path]
  if Text.endsWith path ".class" then return ["-intype", "CLASS", "-process_dir", Path.parent path]
  if Text.endsWith path ".jar" then return ["-intype", "JAR", "-process_dir", path]
  if Text.endsWith path ".aar" then fault .wrongType
  return []

def pathFailure (wording path : String) : Fault :=
  .failure ("(" ++ Text.quoted wording ++ ", " ++ Text.quoted path ++ ")")

def searchJava : Job Unit := do
  if ← isDirectory i.path then
    stop (pathFailure "Soot doesn't take a directory as input: %s" i.path)
  let named (flag : String) (v : Option String) : List (Option String) :=
    match v with
    | some v => [some flag, some v]
    | none => []
  let command := [some "java", some "-jar", some "target/astgen-java-1.0.0-jar-with-dependencies.jar",
    some "-inpath", some i.path, some "-outfile", some i.outfile, some "-config", i.config]
    ++ (← javaWords i.path).map some ++ named "-package_name" s.name ++ named "-package_version" s.version
  let _ ← exec "java astgen" command (some "static_proxy/astgen-java")

def assessFile : Job Unit := do
  if s.assess then writeReport i.outfile (← assess (← readReport i.outfile) i.config)

def search (l : Language) (s : Search) : Job Unit := do
  if l = .csharp then return
  let i ← Input.prepare l s.inpath s.outfile s.root s.config
  match l with
  | .python =>
    searchPython i s
    assessFile i s
  | .javascript => searchScript i s
  | .java =>
    searchJava i s
    assessFile i s
  | .php => searchWith "php astgen" "php" "astgen.php" i s
  | .ruby => searchWith "ruby astgen" "ruby" "astgen.rb" i s
  | _ => return
  i.cleanUp

end Vetting.Analysis
