import Vetting.Registry.Client

/-!
# How often packages are downloaded

Some registries, or services beside them, count the downloads of packages. What can be had is taken:
the first number that cannot be had ends the asking.
-/

namespace Vetting.Catalogue

open Registry Job

abbrev Downloads := Table String Doc

def Downloads.toDoc (d : Downloads) : Doc := .obj d

/-- Takes steps that add counts until one fails. -/
def gather : List (Downloads → Job Downloads) → Downloads → Job Downloads
  | [], d => return d
  | step :: steps, d => do
    match ← attempt (step d) with
    | .ok d => gather steps d
    | .error f => if f.isOrdinary then return d else stop f

/-- The sum of two counts; texts and lists are joined. -/
def addDocs (x y : Doc) : Except Fault Doc :=
  match x, y with
  | .str s, .str t => .ok (.str (s ++ t))
  | .arr xs, .arr ys => .ok (.arr (xs ++ ys))
  | x, y =>
    match x.number?, y.number? with
    | some (m, 0), some (n, 0) => .ok (.int (m + n))
    | some (m, e), some (n, f) =>
      if e ≤ f then .ok (.decimal (m + n * Int.pow 10 (f - e).toNat) e) else .ok (.decimal (m * Int.pow 10 (e - f).toNat + n) f)
    | _, _ => .error (.cause .wrongType)

def sumDocs (ds : List Doc) : Except Fault Doc :=
  ds.foldlM (fun s d => if d.isStr || d.isArr then .error (.cause .wrongType) else addDocs s d) (.int 0)

def nameText (name : Option String) : String := name.getD "None"

def addField (url key field : String) (d : Downloads) : Job Downloads := do
  return d.set key (← (← fetchDoc url).at field)

def pypiDownloads (name : String) : Job Downloads :=
  let url := "https://pypistats.org/api/packages/" ++ name
  gather [
    fun d => do return Table.update d (← (← (← fetchDoc (url ++ "/recent")).at "data").entries),
    fun d => do
      let records ← (← (← fetchDoc (url ++ "/overall")).at "data").items
      let counts ← records.filterMapM fun r => do
        if Doc.same (← r.at "category") (.str "with_mirrors") then return some (← r.at "downloads") else return none
      return d.set "overall" (← sumDocs counts)] []

def maxDays : Int := 547

def npmjsDownloads (name : String) : Job Downloads := do
  let today := (← get).now
  let (y, m, d, _) := today.parts
  let some lastYear := Time.Stamp.ofParts? (y - 1) m d 0 0 0 0 | fault .badValue
  let middle := today.addDays (-maxDays)
  let start := middle.addDays (-maxDays)
  let point (what : String) := "https://api.npmjs.org/downloads/point/" ++ what ++ "/" ++ name
  gather [
    addField (point "last-week") "last_week" "downloads",
    addField (point "last-month") "last_month" "downloads",
    addField (point (lastYear.dateText ++ ":" ++ today.dateText)) "last_year" "downloads",
    fun d => do
      let late ← (← fetchDoc (point (middle.dateText ++ ":" ++ today.dateText))).at "downloads"
      let early ← (← fetchDoc (point (start.dateText ++ ":" ++ middle.dateText))).at "downloads"
      return d.set "overall" (← addDocs late early)] []

def packagistDownloads (name : Option String) : Job Downloads := do
  let some name := name | fault .noMember
  let [vendor, product] := Text.splitOn name "/" | fault .badValue
  match ← attempt (do
    let d ← fetchDoc ("https://packagist.org/packages/" ++ vendor ++ "/" ++ product ++ ".json")
    (← d.at "package").at "downloads") with
  | .error f => if f.isOrdinary then return [] else stop f
  | .ok counts =>
    gather [
      fun d => do return d.set "overall" (← counts.at "total"),
      fun d => do return d.set "last_month" (← counts.at "monthly"),
      fun d => do return d.set "last_day" (← counts.at "daily")] []

def jitpackDownloads (name : String) : Job Downloads := do
  match ← attempt (fetchDoc ("https://jitpack.io/api/stats/" ++ name)) with
  | .error f => if f.isOrdinary then return [] else stop f
  | .ok counts =>
    gather [
      fun d => do return d.set "last_month" (← counts.at "month"),
      fun d => do return d.set "last_week" (← counts.at "week")] []

def downloads (k : Option Kind) (name : Option String) : Job Downloads :=
  match k with
  | some .pypi => pypiDownloads (nameText name)
  | some .npmjs => npmjsDownloads (nameText name)
  | some .rubygems =>
    gather [addField ("https://rubygems.org/api/v1/gems/" ++ nameText name ++ ".json") "overall" "downloads"] []
  | some .packagist => packagistDownloads name
  | some .nuget => stop (.failure "nuget statistics is available, not implemented yet!")
  | some .maven => stop (.failure "maven statistics is not available, nor implemented!")
  | some .jcenter => stop (.failure "jcenter statistics is available, not implemented yet!")
  | some .jitpack => jitpackDownloads (nameText name)
  | some .dockerhub => stop (.failure "Not implemented yet!")
  | k => stop (.failure ("package manager " ++ (k.map Kind.word).getD "None" ++ " not supported yet!"))

def addDownloads (infile outfile : String) (k : Option Kind) : Job Unit := do
  let sheet ← readSheet infile
  let names ← columns sheet
  if !names.contains "package name" then
    stop (.failure ("field package name is not in " ++ (Literal.list (names.map .text)).render))
  let names := if names.contains "downloads" then names else names ++ ["downloads"]
  writeText outfile (Sheet.writeLine names)
  for r in sheet.rows do
    let name := (r.cells.get? "package name").getD none
    let counts ← downloads k name
    addLine outfile names { r with cells := r.cells.set "downloads" (some counts.toDoc.shown) }

end Vetting.Catalogue
