import Vetting.Host.Files
import Vetting.Similarity.Distance
import Vetting.Survey.Kind

/-!
# Distances between all names

A table with a row for each name of the first list and a column for each of the second.
-/

namespace Vetting.Similarity

open Job Sheet

open Survey (DistanceKind)

variable (file source : String) (target : Option String) (outfile : String) (q : Request)

def namesIn (column : String := "package name") : Job (Option (List String)) := do
  column? (← readText file) column

def needed (names : Option (List String)) : Except Fault (List String) :=
  match names with
  | some ns => .ok ns
  | none => .error (.cause .wrongType)

/-- The names of two lists; without a second list the first is compared with itself. -/
def namesOf : Job (Option (List String) × Option (List String)) := do
  let sources ← namesIn source
  match target.filter fun t => !t.isEmpty with
  | some t => return (sources, ← namesIn t)
  | none => return (sources, sources)

def headerLine (targets : List String) : String := writeLine ("pname" :: targets)

/-- Writes a table of distances. The rows have no names. -/
def writeTable (targets : Option (List String)) (rows : List (List Nat)) : Job Unit := do
  writeText outfile ""
  appendText outfile (headerLine (← needed targets))
  for r in rows do
    appendText outfile (writeLine (r.map Text.ofNat))

def distances (sources targets : List String) : List (List Nat) :=
  sources.map fun s => targets.map fun t => tableDistance s.toList t.toList

/-- Writes the distances of the names in two lists, by the table method. -/
def tableFile : Job Unit := do
  let (sources, targets) ← namesOf source target
  let sources ← needed sources
  let rows ← if sources.isEmpty then pure [] else do pure (distances sources (← needed targets))
  writeTable outfile targets rows

/-- Writes distances by the method on one row, which fails as it is given texts for bytes. -/
def rowFile : Job Unit := do
  let (sources, targets) ← namesOf source target
  let sources ← needed sources
  let rows ← sources.mapM fun _ => do
    if !(← needed targets).isEmpty then fault .wrongType
    return []
  writeTable outfile targets rows

/-- Writes distances by the method on one row for all names, which cannot be given a name either. -/
def batchFile : Job Unit := do
  let (sources, targets) ← namesOf source target
  let _ ← needed targets
  if !(← needed sources).isEmpty then fault .wrongType
  writeTable outfile targets []

def nearCells (threshold : Int) (cells : Table String (Option String)) :
    Except Fault (Table String (Option String)) :=
  cells.filterM fun (k, v) =>
    if k = "pname" then .ok true
    else match v with
      | none => .error (.cause .wrongType)
      | some s =>
        match Text.intOf? s with
        | some n => .ok (n ≤ threshold)
        | none => .error (.cause .badValue)

def keepLine (names : List String) (threshold : Int) (r : Sheet.Line) : Job Unit := do
  if !r.extra.isEmpty then fault .wrongType
  addLine file names { cells := ← nearCells threshold r.cells }

def keepNear (threshold : Int) : Job Unit := do
  let sheet ← readSheet file
  let names ← columns sheet
  writeText file (writeLine names)
  for r in sheet.rows do keepLine file names threshold r

/-- How to compare lists of names. -/
structure Request where
  source : String
  target : Option String := none
  method : Option DistanceKind := none
  outfile : String
  pairFile : Option String := none
  batch : Option Int := some 10000
  threshold : Option Int := some 2
deriving Inhabited

namespace Request

def compare (q : Request) (source : String) (target : Option String) (outfile : String) : Job Unit := do
  match q.method with
  | some .table => tableFile source target outfile
  | some .row => rowFile source target outfile
  | some .rowBatch => batchFile source target outfile
  | none => stop (.failure "Unhandled distance algorithm: None")
  let some threshold := q.threshold | fault .wrongType
  if threshold > 0 then keepNear outfile threshold

def pairColumns : List String := ["source", "target", "distance"]

def addPairs (table pairs : String) : Job Unit := do
  for r in (← readSheet table).rows do
    for (k, v) in r.cells do
      if k != "pname" then
        if let some d := v.filter fun s => !s.isEmpty then
          let name ← match r.cells.get? "pname" with
            | some n => pure n
            | none => stop (.missingKey (Text.quoted "pname"))
          addLine pairs pairColumns { cells := [("source", name), ("target", some k), ("distance", some d)] }

def compareAndPair (q : Request) (source : String) (target : Option String) (outfile : String) : Job Unit := do
  q.compare source target outfile
  if let some p := q.pairFile.filter fun p => !p.isEmpty then addPairs outfile p

end Request

def chunks {α : Type} (n : Nat) : Nat → List α → List (List α)
  | 0, _ => []
  | _, [] => []
  | fuel + 1, xs => xs.take n :: chunks n fuel (xs.drop n)

/-- Writes a part of a list to a file of a directory, by its number. -/
def writePart (dir file : String) (names : List String) (part : List Sheet.Line × Nat) : Job String := do
  let p := Path.join dir (Path.base file ++ "." ++ Text.ofNat part.2)
  writeText p (writeLine names)
  for r in part.1 do addLine p names r
  return p

/-- Splits a long list into files of a directory; a short one stays as it is. -/
def splitList (batch : Int) : Job (Option String × List String) := do
  let dir ← temporaryDir "edit_dist-"
  let sheet ← readSheet file
  if (sheet.rows.length : Int) ≤ batch then return (none, [file])
  if batch = 0 then fault .badValue
  let names ← columns sheet
  let parts := if batch < 0 then [] else chunks batch.toNat (sheet.rows.length + 1) sheet.rows
  return (some dir, ← parts.zipIdx.mapM (writePart dir file names))

def Request.outFor (source target : String) : String :=
  q.outfile ++ "." ++ Path.base source ++ "-" ++ Path.base target

/-- The parts of the second list; without one they are those of the first. -/
def Request.splitTarget (sources : List String) (batch : Int) : Job (Option String × List String) := do
  match q.target.filter fun t => !t.isEmpty with
  | some t => splitList t batch
  | none => return (none, sources)

def Request.compareParts (sources targets : List String) : Job Unit := do
  for s in sources do
    for t in targets do q.compareAndPair s (some t) (q.outFor s t)

def removeMade (dir : Option String) : Job Unit := do
  if let some d := dir then removeTree d

def Request.runInParts (batch : Int) : Job Unit := do
  let (sourceDir, sources) ← splitList q.source batch
  let (targetDir, targets) ← q.splitTarget sources batch
  q.compareParts sources targets
  removeMade targetDir
  removeMade sourceDir

/-- Compares lists of names, in parts if they are long. -/
def Request.run : Job Unit := do
  if let some p := q.pairFile.filter fun p => !p.isEmpty then
    writeText p (writeLine pairColumns)
  let some batch := q.batch | fault .wrongType
  if batch ≤ 0 then q.compareAndPair q.source q.target q.outfile else q.runInParts batch

/-! ## Names that contain a name

A package that hides behind a known name often contains it.
-/

def extendsName (name other : String) : Bool := name != other && Text.contains other name

def combinations (name : String) (others : List String) : List (String × String) :=
  (others.filter (extendsName name)).map fun other => (name, other)

def minLength : Nat := 6

/-- Adds to a file the pairs of names in a list of which one contains the other. -/
def combine : Job Unit := do
  let some names ← namesIn source "package_name" | fault .noMember
  let long := names.filter fun n => n.length ≥ minLength
  appendText outfile ""
  for n in long do
    for (a, b) in combinations n long do
      appendText outfile (writeLine [a, b])

/-! ## Ranks of similar names

Tables of distances are looked at one by one. They are opened as bytes, which the reader of tables
refuses, so that this ends at the first that has a line.
-/

def rankedDir : String := "/home/salini/maloss/rubygems_edit"

def rankFile (i : Nat) (name : String) : Job Unit := do
  printLine (Literal.tuple [.int i, .text name]).render
  let bytes ← readBytes (Path.join rankedDir name)
  printLine "inside"
  fault (if bytes.isEmpty then .exhausted else .badRow)

def rankAll : Job Unit := do
  for v in ← walk rankedDir do
    for (name, i) in v.files.zipIdx do rankFile i name

def compareNames (argv : List String) : Job Unit := do
  match argv with
  | [] => fault .wrongType
  | [_] => fault .outOfRange
  | a :: b :: _ =>
    printLine ("comparing " ++ a ++ " and " ++ b)
    fault .wrongType

end Vetting.Similarity
