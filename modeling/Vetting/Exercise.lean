import Vetting.Command.Commands

/-!
# The modules of a package

The modules of a package, and of the packages below it, are loaded; those that fail to load are left out.
-/

/-! ## Calling what a module offers

A module offers attributes of many kinds. Those that can be called without arguments are called, in
the order of their names, so that what they do can be seen.
-/

namespace Vetting.Exercise

open Job Path

inductive AttributeKind where
  | function
  | method
  | classType
  | generator
  /-- A function that cannot be called without an argument. -/
  | needsArgument
  /-- A function that fails when it is called. -/
  | raises
  /-- A function that ends the program when it is called. -/
  | exits
  /-- A function that leaves no trace of its call. -/
  | builtin
  /-- A value that is not called. -/
  | value
deriving BEq, DecidableEq, Inhabited

namespace AttributeKind

def ofWord (w : String) : AttributeKind :=
  if w = "function" then .function
  else if w = "method" then .method
  else if w = "class" then .classType
  else if w = "generator" then .generator
  else if w = "needs_argument" then .needsArgument
  else if w = "raises" then .raises
  else if w = "exits" then .exits
  else if w = "builtin" then .builtin
  else .value

def isEntered (classesAreValues : Bool) : AttributeKind → Bool
  | .function | .method | .generator | .raises | .exits => true
  | .classType => !classesAreValues
  | _ => false

end AttributeKind

abbrev Attributes := Table String AttributeKind

/-- Calls attributes one after another, telling each call that got into one. -/
def callAll (classesAreValues : Bool) (seen : String → Job Unit) : List (String × AttributeKind) → Job Unit
  | [] => return
  | (name, kind) :: rest => do
    if kind.isEntered classesAreValues then
      seen name
      if kind = .exits then stop (.exit (.number 3))
    callAll classesAreValues seen rest

def callAttributes (classesAreValues : Bool) (seen : String → Job Unit) (attributes : Attributes) : Job Unit :=
  callAll classesAreValues seen (attributes.mergeSort fun a b => Text.le a.1 b.1)

def calledNames (classesAreValues : Bool) (attributes : Attributes) : Except Fault (List String) :=
  let sorted := attributes.mergeSort fun a b => Text.le a.1 b.1
  let entered := sorted.filter fun p => p.2.isEntered classesAreValues
  if entered.any fun p => p.2 = .exits then .error (.exit (.number 3))
  else .ok (entered.map Prod.fst)

/-- Imports the first top-level module of an installed package and calls what that offers. -/
def exercisePackage (program : String) (classesAreValues : Bool) (modules : Table String Attributes)
    (arguments : List String) : Job Unit := do
  match arguments with
  | [name] =>
    match (← get).distributions.get? name with
    | none => fault .noDistribution
    | some dist =>
      match dist.topLevel with
      | none => stop (.missingKey "'top_level.txt'")
      | some [] => fault .outOfRange
      | some (top :: _) =>
        match modules.get? top with
        | none => fault .noModule
        | some attributes => callAttributes classesAreValues printLine attributes
  | _ =>
    printLine ("Usage: " ++ program ++ " PKG_NAME")
    stop (.exit (.number 1))

/-! ## Entry points of packages

The programs that a package installs are run one after the other, first without arguments and then
with a request for help. One that cannot be run is passed over.
-/

def tryEntry (ws : List String) (cwd : Option String := none) : Job Unit :=
  orElseOrdinary (do
      let _ ← call ws cwd
      let _ ← call (ws ++ ["--help"]) cwd)
    fun _ => return

def modulesEntries (name : String) : Job Unit := do
  let some d := (← get).distributions.get? name | fault .noDistribution
  for (group, entries) in d.entryPoints do
    if ["console_scripts", "gui_scripts"].contains group then
      for e in entries do tryEntry [e]

def gemEntries (name : String) : Job Unit := do
  record { label := "shell", words := .list (words ["gem", "path", Text.replace name "-" "/"]) }
  fault .wrongType

/-- Runs the binaries and the scripts of a package, scripts in its directory. -/
def scriptEntries (name : String) (binaries scripts : Option (List String)) (root : Option String) : Job Unit := do
  let some binaries := binaries | fault .wrongType
  let some scripts := scripts | fault .wrongType
  for b in binaries do tryEntry ["npx", "--no-install", b] root
  for s in scripts do
    if let some r := root then tryEntry ["npm", "run", s] (some (join r name))

/-- Runs the binaries of a package below the root of all packages. -/
def vendorEntries (binaries : Option (List String)) (root : Option String) : Job Unit := do
  let some binaries := binaries | fault .wrongType
  let some root := root | fault .wrongType
  for b in binaries do tryEntry [join (join root "vendor/bin") (base b)]

def entriesForm : Command.Form :=
  { items := [Command.place "package_name",
      (Command.option "package_manager" "m").among
        ["pypi", "rubygems", "npmjs", "packagist", "maven", "nuget"] (.str "pypi"),
      { names := ["-b", "--binary"], dest := "binaries", arity := .collected },
      { names := ["-s", "--script"], dest := "scripts", arity := .collected },
      Command.option "root" "r"] }

def runEntries (argv : List String) : Job Unit := do
  let values ← Command.read entriesForm argv
  let value (k : String) : Doc := (values.get? k).getD .null
  let texts? (k : String) : Option (List String) :=
    match value k with
    | .arr xs => some (xs.map fun x => x.strD "")
    | _ => none
  let name := (value "package_name").strD ""
  let root := (value "root").str?
  match (value "package_manager").strD "" with
  | "pypi" => modulesEntries name
  | "rubygems" => gemEntries name
  | "npmjs" => scriptEntries name (texts? "binaries") (texts? "scripts") root
  | "packagist" => vendorEntries (texts? "binaries") root
  | "maven" => stop (.failure "maven main is not implemented yet!")
  | _ => stop (.failure "nuget main is not implemented yet!")

def packageFile : String := "__init__.py"

abbrev Loaded := String × Option String

def loads (file : String) : Job Bool := do return !(Text.contains (← readText file) "raise")

def moduleName? (file : String) : Option String :=
  let (stem, ext) := splitExt file
  if ext = ".py" then some stem else none

def modulesIn (dir : String) : Job (List Loaded) := do
  let names ← list dir
  let mut found : List Loaded := []
  for n in names do
    let p := join dir n
    match moduleName? n with
    | some m =>
      if m != "__init__" && !Text.contains m "." then
        if ← loads p then found := found ++ [(m, none)]
    | none =>
      if (← isDirectory p) && !Text.contains n "." then
        let own := join p packageFile
        if ← isFile own then
          if ← loads own then found := found ++ [(n, some p)]
  return found

def namesBelow : Nat → List String → List Loaded → Job (List String)
  | 0, names, _ => return names
  | _, names, [] => return names
  | fuel + 1, names, (name, dir) :: queue => do
    if names.contains name then namesBelow fuel names queue
    else
      let inner ← match dir with
        | some d => modulesIn d
        | none => pure []
      namesBelow fuel (names ++ [name]) (queue ++ inner)

/-- Finds a module by the parts of its name, loading the packages around it. -/
def findModule (dir : String) : List String → Job (Option String)
  | [] => return some dir
  | part :: rest => do
    let own := join dir part
    let file := join own packageFile
    if ← isFile file then
      if !(← loads file) then fault .noImport
      findModule own rest
    else if ← isFile (own ++ ".py") then
      if !(← loads (own ++ ".py")) then fault .noImport
      match rest with
      | [] => return none
      | _ => fault .noModule
    else fault .noModule

def packageModules (package : String) : Job (List String) := do
  let cwd := (← get).cwd
  match ← findModule cwd (Text.splitOn package ".") with
  | none => fault .noMember
  | some dir =>
    let fuel := (← get).files.length * (← get).files.length + 1
    return Text.sort (← namesBelow fuel [] [(package, some dir)])

end Vetting.Exercise
