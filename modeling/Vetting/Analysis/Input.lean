import Vetting.Calls.JavaScript
import Vetting.Calls.Python
import Vetting.Host.Commands
import Vetting.Language

/-!
# What an analysis looks at

A source file, a directory or a packed package, which is unpacked into a directory of its own first.
-/

namespace Vetting.Analysis

open Job

variable (l : Language) (source : String)

def extensions : Except Fault (List String) :=
  match l with
  | .python => .ok [".py"]
  | .javascript => .ok [".js"]
  | .ruby => .ok [".rb"]
  | .java => .ok [".java", ".class", ".jar", ".aar", ".war", ".dex", ".apk"]
  | .csharp => .ok [".cs"]
  | .php => .ok [".php"]
  | l => .error (.missingKey l.shownKey)

/-- What an analysis is given, with absolute paths. -/
structure Input where
  /-- The file or directory to look at. -/
  path : String
  /-- Whether the directory was made for the analysis only. -/
  unpacked : Bool := false
  outfile : String
  root : Option String
  config : Option String
deriving BEq, DecidableEq, Inhabited

def absolute? (p : Option String) : Job (Option String) := do
  match p with
  | some s => return some (← absolute s)
  | none => return none

/-- Prepares what an analysis looks at, unpacked if there is a command for it. -/
def Input.prepare (inpath outfile : String) (root config : Option String) : Job Input := do
  let inpath ← absolute inpath
  let outfile ← absolute outfile
  let root ← absolute? root
  let config ← absolute? config
  if !(← exists? inpath) then stop (.failure ("inpath " ++ inpath ++ " doesn't exist!"))
  if ← isDirectory inpath then return { path := inpath, outfile, root, config }
  if Text.endsWithAny inpath (← extensions l) then return { path := inpath, outfile, root, config }
  if Text.endsWith inpath ".gem" then
    let dir ← temporaryDir "gem-"
    execute "gem unpack" ["gem", "unpack", inpath, "--target", dir]
    return { path := dir, unpacked := true, outfile, root, config }
  fault .wrongType

def Input.cleanUp (i : Input) : Job Unit := do
  if i.unpacked then removeTree i.path

/-- The source files, and the directory that their paths are given from. -/
def sourceFiles (path : String) (root : Option String) : Job (List String × String) := do
  if ← isFile path then
    return ([← absolute path], ← absolute (root.getD (Path.parent path)))
  let files ← filesBelow path
  let wanted := files.filter fun p => Text.endsWithAny p (match extensions l with | .ok es => es | .error _ => [])
  return (← wanted.mapM absolute, ← absolute (root.getD path))

def fileInfo (file root : String) : Api.FileInfo :=
  { filename := Path.base file, relpath := Path.relative (Path.parent file) root
    file := Path.relative file root, directory := root }

def useOf (info : Api.FileInfo) (c : Calls.Call) : Api.Node :=
  { kind := .functionRef, name := c.name, fullName := c.fullName, baseType := c.base.getD ""
    arguments := c.args, source := c.text
    range := some
      { start := some { row := c.start.row, column := c.start.column, fileInfo := some info }
        finish := some { row := c.finish.row, column := c.finish.column, fileInfo := some info } } }

def isBlankSource : Bool :=
  (Text.lines source).all fun l => let l := Text.strip l; l.isEmpty || Text.startsWith l "#"

def treeOf? : Job (Option Doc) := do
  match (← get).trees.lookup source with
  | some (.obj fs) => return some (.obj fs)
  | some _ => return none
  | none => return if isBlankSource source then some (.obj [("t", .str "Module")]) else none

def moduleTree : Job Calls.Python.ModuleTree := do
  match ← treeOf? source with
  | some d => return .ofDoc d
  | none => stop (Calls.Layout.refusal source.toList)

def readConfig (config : Option String) : Job Api.Config := do
  match config with
  | some p => return .ofDoc (← readMessage "AstLookupConfig" p)
  | none => fault .wrongType

def readReport (p : String) : Job Api.Report := do return .ofDoc (← readMessage "PkgAstResults" p)

def writeReport (p : String) (r : Api.Report) : Job Unit := writeMessage "PkgAstResults" p r.toDoc

def truthOf (v : Api.Expr.Value) : Except Fault Bool :=
  match v with
  | .bool b => .ok b
  | _ => .error (.cause .wrongType)

/-- Whether reports are suspicious, by the settings of a file or else by their own. -/
def verdictOf (rs : List Api.Report) (config : Option String) : Job Api.Expr.Value := do
  match config.filter fun s => !s.isEmpty with
  | some p =>
    if rs.isEmpty then return .bool false
    Api.verdictWith (← readConfig (some p)) rs
  | none => Api.verdict rs

def record (r : Api.Report) (v : Api.Expr.Value) : Except Fault Api.Report := do
  let _ ← r.first
  let b ← truthOf v
  r.modifyFirst fun p => { p with config := some { p.settings with satisfied := b } }

def assess (r : Api.Report) (config : Option String) : Job Api.Report := do
  record r (← verdictOf [r] config)

end Vetting.Analysis
