import Vetting.Analysis.Packages
import Vetting.Survey.Dependencies

/-!
# Choosing packages and versions

Lists of packages are cut down to the packages that matter, and get columns for versions and authors.
-/

namespace Vetting.Survey

open Registry Job

structure Choice where
  /-- Keep so many of the most popular ones, if it is more than none. -/
  top : Option Int := some 0
  /-- Keep those that are as popular as this, if it is more than none. -/
  threshold : Option Int := some 0
  field : Option String := none
deriving Inhabited

/-- The chosen ones of counted rows. -/
def Choice.apply {α : Type} (c : Choice) (rows : List (Literal × α)) : Except Fault (List (Literal × α)) := do
  let some top := c.top | throw (.cause .wrongType)
  let rows ← if top > 0 then do pure ((← sortDescending (fun a b => a.1.less b.1) rows).take top.toNat)
    else pure rows
  let some threshold := c.threshold | throw (.cause .wrongType)
  if threshold > 0 then rows.filterM fun r => do return !(← r.1.less (.int threshold)) else return rows

def countUses (rows : List Sheet.Line) : Job (List (Literal × Sheet.Line)) := do
  let some first := rows.head? | fault .outOfRange
  let some word ← Package.Row.cell first.cells "language" | fault .badValue
  let g ← storedGraph (← Language.ofWord word)
  rows.mapM fun r => do
    return (.int (← useCount g (← Package.Row.cell r.cells "package name")), r)

variable (infile outfile : String) (l : Language)

/-- Keeps the popular packages of a list, told by their downloads or by their uses. -/
def selectPackages (c : Choice) : Job Unit := do
  let sheet ← readSheet infile
  let byUse := c.field = some "use_count"
  let counted ← if byUse then countUses sheet.rows else do
    if !(← columns sheet).contains "downloads" then return
    sheet.rows.filterMapM fun r => do
      match ← Package.Row.downloads r.cells c.field with
      | .none => return none
      | n => return some (n, r)
  let chosen ← c.apply counted
  if chosen.isEmpty then return
  let names := (← columns sheet) ++ (if byUse then ["use_count"] else [])
  writeText outfile (Sheet.writeLine names)
  for (n, r) in chosen do
    let cells := if byUse then r.cells.set "use_count" (some n.shown) else r.cells
    addLine outfile names { r with cells }

/-- Prints the registries that had enough packages on the last day of a list of counts. -/
def selectRegistries (threshold : Option Int) (file : String) : Job Unit := do
  let some last := (← readSheet file).rows.getLast? | fault .outOfRange
  let mut selected : List String := []
  for (registry, count) in last.cells do
    if registry = "date" then continue
    let some count := count.filter fun s => !s.isEmpty | continue
    let some n := Text.intOf? count | fault .badValue
    let some least := threshold | fault .wrongType
    if n ≥ least then
      selected := selected ++ [registry]
      printLine ("package manager " ++ registry ++ " has " ++ Text.ofInt n ++ " packages!")
  if !last.extra.isEmpty then fault .wrongType
  printLine ("the selected packages are " ++ (Literal.list (selected.map .text)).render)

/-- Keeps the packages of a list that use an interface of the settings. -/
def filterPackages (outdir : String) (cacheDir config : Option String) : Job Unit := do
  let watched := (← Analysis.readConfig config).apis.map fun a => a.fullName
  let (sheet, names) ← startSheetFrom infile outfile
  let c ← Client.forLanguage l cacheDir true
  let l ← Analysis.analysed l
  for r in sheet.rows do
    let some report ← Analysis.usesOf l c (← nameOf r) outdir none none true | continue
    if (← report.first).uses.any fun x => watched.contains x.fullName then
      addLine outfile names r

def notablePermissions : List String := ["OBFUSCATION", "CODE_GENERATION", "PROCESS_OPERATION", "NETWORK"]

def anyNotable : List Doc → Except Fault Bool
  | [] => .ok false
  | p :: ps => do
    if Text.endsWithAny (← p.text) notablePermissions then return true
    anyNotable ps

def filterVersions (versionsFile compareFile outfile : String) : Job Unit := do
  let (sheet, names) ← startSheetFrom versionsFile outfile
  let found ← readDoc compareFile
  let _ ← found.size
  for r in sheet.rows do
    let name ← Package.Row.cell r.cells "package name"
    let summary ← match name with
      | some n => found.findD n (.obj [])
      | none => do
        let _ ← found.entries
        pure (Doc.obj [])
    let permissions ← summary.findD "all_permissions" (.arr [])
    if ← anyNotable (← permissions.items) then addLine outfile names r

def docCell (d : Doc) : Option String := if d.isNull then none else some d.shown

def addAuthors (cacheDir : Option String) : Job Unit := do
  let (sheet, names) ← startSheetFrom infile outfile (· ++ ["author"])
  let c ← Client.forLanguage l cacheDir true
  for r in sheet.rows do
    let author ← c.author (← nameOf r)
    addLine outfile names { r with cells := r.cells.set "author" (docCell author) }

/-- The cells of a version in a row; one without a time has none if times are asked for. -/
def versionCells (timed : Bool) (r : Sheet.Line) (v : Listed) : Option Sheet.Line :=
  match timed, v.time with
  | false, _ => some { r with cells := r.cells.set "version" (docCell v.version) }
  | true, some t =>
    some { r with cells := (r.cells.set "version" (docCell v.version)).set "release time" (some t.dateText) }
  | true, none => none

/-- Writes a row for each version of the packages of a list, as far as it can be written. -/
def addVersions (limit gapDays : Option Int) (timed : Bool) (cacheDir : Option String) : Job Unit := do
  let (sheet, names) ← startSheetFrom infile outfile fun ns => if timed then ns ++ ["release time"] else ns
  let c ← Client.forLanguage l cacheDir true
  let limited := (limit.getD 0 != 0) || (gapDays.getD 0 != 0)
  for r in sheet.rows do
    let name ← nameOf r
    let some versions ← (if limited then c.versions name limit gapDays else c.versions name)
      | fault .wrongType
    for v in versions do
      match versionCells timed r v with
      | some line => orElseOrdinary (addLine outfile names line) fun _ => pure ()
      | none => pure ()

end Vetting.Survey
