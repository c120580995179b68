import Vetting.Api.Formula
import Vetting.Api.Node

/-!
# Settings and reports

Settings list the functions to look for and a formula over their numbers. A report has, for each
analysed package, the settings used and the uses found.
-/

namespace Vetting.Api

/-- Which functions to look for, and the formula that makes a package suspicious. -/
structure Config where
  apis : List Node := []
  saveFeature : Bool := false
  formula : String := ""
  satisfied : Bool := false
  /-- Compare names without their class or module. -/
  funcOnly : Bool := false
deriving Inhabited, BEq

namespace Config

def toDoc (c : Config) : Doc :=
  .obj (listField "apis" (c.apis.map Node.toDoc) ++ flagField "save_feature" c.saveFeature
    ++ textField "smt_formula" c.formula ++ flagField "smt_satisfied" c.satisfied
    ++ flagField "func_only" c.funcOnly)

def ofDoc (d : Doc) : Config :=
  { apis := (listOf d "apis").map Node.ofDoc
    saveFeature := flagOf d "save_feature"
    formula := textOf d "smt_formula"
    satisfied := flagOf d "smt_satisfied"
    funcOnly := flagOf d "func_only" }

end Config

structure PackageReport where
  name : String := ""
  version : String := ""
  /-- The language of the package, by its name in messages; empty if it is unknown. -/
  language : String := ""
  inputPath : String := ""
  config : Option Config := none
  uses : List Node := []
  roots : List Doc := []
deriving Inhabited, BEq

namespace PackageReport

def toDoc (p : PackageReport) : Doc :=
  .obj (textField "pkg_name" p.name ++ textField "pkg_version" p.version
    ++ textField "language" p.language ++ textField "input_path" p.inputPath
    ++ partField "config" (p.config.map Config.toDoc)
    ++ listField "api_results" (p.uses.map Node.toDoc) ++ listField "root_nodes" p.roots)

def ofDoc (d : Doc) : PackageReport :=
  { name := textOf d "pkg_name"
    version := textOf d "pkg_version"
    language := textOf d "language"
    inputPath := textOf d "input_path"
    config := (d.field? "config").map Config.ofDoc
    uses := (listOf d "api_results").map Node.ofDoc
    roots := listOf d "root_nodes" }

def settings (p : PackageReport) : Config := p.config.getD {}

end PackageReport

structure Report where
  packages : List PackageReport := []
  timestamp : String := ""
deriving Inhabited, BEq

namespace Report

def toDoc (r : Report) : Doc :=
  .obj (listField "pkgs" (r.packages.map PackageReport.toDoc) ++ textField "timestamp" r.timestamp)

def ofDoc (d : Doc) : Report :=
  { packages := (listOf d "pkgs").map PackageReport.ofDoc, timestamp := textOf d "timestamp" }

def first (r : Report) : Except Fault PackageReport :=
  match r.packages with
  | p :: _ => .ok p
  | [] => .error (.cause .outOfRange)

def modifyFirst (r : Report) (f : PackageReport → PackageReport) : Except Fault Report :=
  match r.packages with
  | p :: ps => .ok { r with packages := f p :: ps }
  | [] => .error (.cause .outOfRange)

end Report

/-!
## Is a package suspicious?

The formula of the settings is evaluated over the functions that any report uses. Without classes, a use
counts for every function of its partial name.
-/

def fullNames (apis : List Node) : Table String (List String) :=
  apis.foldl (fun t n => t.modify n.partialName [] (· ++ [n.fullName])) []

def usedBy (p : PackageReport) : Except Fault (List String) :=
  let c := p.settings
  if c.funcOnly then do
    let table := fullNames c.apis
    let names ← p.uses.mapM fun u =>
      match table.get? u.partialName with
      | some ns => .ok ns
      | none => .error (.missingKey (Text.quoted u.partialName))
    return names.flatten
  else .ok (p.uses.map (·.fullName))

def usedIds (c : Config) (used : List String) : List Int :=
  (c.apis.filter fun n => used.contains n.fullName).map (·.id)

def usedInAll (rs : List Report) : Except Fault (List String) :=
  rs.foldlM (fun acc r => do return acc ++ (← usedBy (← r.first))) []

def verdictWith (c : Config) (rs : List Report) : Except Fault Expr.Value := do
  evalText (usedIds c (← usedInAll rs)) c.formula

def verdict (rs : List Report) : Except Fault Expr.Value :=
  match rs with
  | [] => .ok (.bool false)
  | r :: _ => do verdictWith (← r.first).settings rs

end Vetting.Api
