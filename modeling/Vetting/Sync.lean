import Vetting.Command.Commands

/-!
# Keeping the archives of a registry

A full run fetches what the registry's list names; a run for updates what is new since the last list. A
version is fetched into a directory of its own, and is not fetched again once that is there.
-/

/-! ## Links to archives

A registry's list of packages names the archive of every version. From it come the links of all
versions, and the links that are new since an earlier list.
-/

namespace Vetting.Sync

open Path

abbrev Links := Table String (Table String Doc)

namespace Links

def toDoc (ls : Links) : Doc := .obj (ls.map fun (name, versions) => (name, .obj versions))

def keyText (d : Doc) : String := d.str?.getD d.write

/-- Adds the links of one package of a registry's list. A package without versions has none. -/
def addRow (ls : Links) (row : Doc) : Except Fault Links := do
  let id ← row.at "id"
  let hasVersions ← if ← row.has "doc" then (do (← row.at "doc").has "versions") else pure false
  if !hasVersions then return ls
  let versions ← (← row.at "doc").at "versions"
  let _ ← versions.size
  let name := keyText (← id.asKey)
  let ls := ls.setDefault name []
  let found ← (← versions.entries).mapM fun (v, info) => do
    return (v, ← (← info.at "dist").at "tarball")
  return ls.modify name [] fun old => old.update found

def ofRows (rows : List Doc) : Except Fault Links := rows.foldlM addRow []

def newVersions (latest : Doc) (name : String) (versions : Table String Doc) : Except Fault (Table String Doc) := do
  if !(← latest.has name) then return versions
  let old ← (← latest.at name).keys
  return versions.filter fun (v, _) => !old.contains v

/-- The links that an earlier list does not have, of packages with any such. -/
def newSince (latest : Doc) (ls : Links) : Except Fault Links := do
  let found ← ls.mapM fun (name, versions) => do return (name, ← newVersions latest name versions, ← latest.has name)
  return found.filterMap fun (name, versions, isOld) =>
    if isOld && versions.isEmpty then none else some (name, versions)

end Links

/-- A version to be fetched. -/
structure Fetch where
  name : String
  version : String
  archive : Doc
deriving Inhabited

/-- The version of the path of an archive, as `name:version`: its directories below the registry's. -/
def fetchedVersion (path : String) : Except Fault String :=
  let rest := (Text.splitOnMax path "npm/" 1).getLastD ""
  match (Text.splitOn rest "/").reverse with
  | _ :: version :: name :: more => .ok (Text.join "/" ((name :: more).reverse) ++ ":" ++ version)
  | _ => .error (.cause .badValue)

def fetchedVersions (list : String) : Except Fault (List String) :=
  (((Text.feedLines list).map Text.strip).filter fun l => Text.endsWith l ".tgz").mapM fetchedVersion

/-- The versions to be fetched, of those in a list of links, without those that are there. -/
def fetches (links : Doc) (skip : List String) : Except Fault (List Fetch) := do
  let found ← (← links.entries).mapM fun (name, versions) => do
    let _ ← versions.size
    (← versions.entries).mapM fun (version, archive) => return ({ name, version, archive } : Fetch)
  return found.flatten.filter fun f => !skip.contains (f.name ++ ":" ++ f.version)

/-! ## Keeping the archives of a registry -/

inductive Task where
  | metadata
  | metadataAll
  | extract
  | download
  | all
  | updates
deriving BEq, DecidableEq, Inhabited

def tasks : List (String × Task) := [
  ("metadata", .metadata), ("metadata_all", .metadataAll), ("extract", .extract), ("download", .download),
  ("sync_all", .all), ("sync_incr", .updates)]

def form : Command.Form :=
  { items := [
      (Command.place "job").among (tasks.map Prod.fst),
      { Command.option "outdir" with default := .str "/data/npm" },
      { Command.option "skipfile" with default := .str "/data/npm.files.tgz" },
      Command.count "processes" "" (.int 32)] }

def fetchList (outfile : String) (withData : Bool) : Job Unit := do
  let url := "https://replicate.npmjs.com/_all_docs" ++ (if withData then "?include_docs=true" else "")
  let _ ← Job.call ["wget", url, "-O", outfile]

def extractLinks (infile outfile : String) : Job Unit := do
  let list ← Job.readDoc infile
  let links ← Links.ofRows (← (← list.at "rows").items)
  Job.writeText outfile links.toDoc.write

def writeNew (latest recent outfile : String) : Job Unit := do
  let old ← Job.readDoc latest
  let links ← (← Job.readDoc recent).entries
  let new ← Links.newSince old (links.map fun (name, versions) => (name, versions.fieldsOf))
  Job.writeText outfile new.toDoc.write

/-- Fetches an archive into the directory of its version. A failed attempt leaves the directory. -/
def fetchArchive (outdir : String) (f : Fetch) : Job Unit := do
  let dir := join (join outdir f.name) f.version
  if !(← Job.exists? dir) then
    Job.makeDirectories dir
    Job.orElseOrdinary (do let _ ← Job.call ["wget", f.archive.strD ""] (some dir)) fun _ => return

def fetchAll (infile outdir : String) (skipfile : String) : Job Unit := do
  let links ← Job.readDoc infile
  let _ ← links.size
  let skip ←
    if !skipfile.isEmpty && (← Job.exists? skipfile) then do
      let list ← Job.readText skipfile
      pure (← (fetchedVersions list : Except Fault (List String)))
    else pure []
  let wanted ← fetches links skip
  for f in wanted do fetchArchive outdir f

/-- The last list of links, by which updates are told. -/
def latestLinks (outdir : String) : Job String := do
  let latest := join outdir "all_npm_pkgs_tarball.latest.json"
  if ← Job.exists? latest then return latest
  let first := join outdir "all_npm_pkgs_tarball.sync_all.json"
  if ← Job.exists? first then return first
  Job.stop (.failure "No latest package list exist! Cannot perform incremental update!")

def refreshLinks (list links : String) : Job Unit := do
  fetchList list true
  extractLinks list links
  Job.remove list

/-- Fetches what is new since the last list, which the recent one then replaces. -/
def update (outdir skipfile : String) : Job Unit := do
  let latest ← latestLinks outdir
  let recent := join outdir "all_npm_pkgs_tarball.sync_incr.json"
  refreshLinks (join outdir "all_npm_pkgs_with_docs.sync_incr.json") recent
  let new := join outdir ("all_npm_pkgs_tarball.diff." ++ (← Job.clock).dateText ++ ".json")
  writeNew latest recent new
  fetchAll new outdir skipfile
  Job.move recent (join outdir "all_npm_pkgs_tarball.latest.json")

def Task.run (outdir skipfile : String) : Task → Job Unit
  | .metadata => fetchList (join outdir "all_npm_pkgs.json") false
  | .metadataAll => fetchList (join outdir "all_npm_pkgs_with_docs.json") true
  | .extract => extractLinks (join outdir "all_npm_pkgs_with_docs.json")
      (join outdir "all_npm_pkgs_tarball.json")
  | .download => fetchAll (join outdir "all_npm_pkgs_tarball.json") outdir skipfile
  | .all => do
    let links := join outdir "all_npm_pkgs_tarball.sync_all.json"
    refreshLinks (join outdir "all_npm_pkgs_with_docs.sync_all.json") links
    fetchAll links outdir skipfile
  | .updates => update outdir skipfile

def run (argv : List String) : Job Unit := do
  let values ← Command.read form argv
  let text (k : String) : String := ((values.get? k).getD .null).strD ""
  match tasks.lookup (text "job") with
  | some t => t.run (text "outdir") (text "skipfile")
  | none => return

/-! ### Repeated runs -/

def repeatForm : Command.Form := { items := [{ Command.place "interval" with kind := .number }] }

/-- Repeats a program, at intervals or as soon as it is over, until it fails or is interrupted: the status to end
with. The host stops a program that never ends. -/
def repeatGo (interval : Int) (program : Job (List String)) : Nat → Job Int
  | 0 => return 0
  | fuel + 1 => do
    let start := (← get).elapsed
    let status ← Job.run (← program)
    if status != 0 then return status
    let rest := interval * 1000000 - ((← get).elapsed - start)
    if 0 < rest then
      Job.noteCall (.sleep (rest / 1000000))
      modify fun h => { h with elapsed := h.elapsed + rest }
    repeatGo interval program fuel

def repeated (program : Job (List String)) (argv : List String) : Job Unit := do
  let values ← Command.read repeatForm argv
  let interval := (((values.get? "interval").getD .null).int?).getD 0
  let status ← Job.orElse (repeatGo interval program (Job.maxCommands + 1)) fun e =>
    if e = .cause .interrupted then return 0 else Job.stop e
  Job.stop (.exit (.number status))

def packagesProgram : Job (List String) := do
  let some initial ← Job.environment? "INIT" | Job.stop (.missingKey (Text.quoted "INIT"))
  return ["python", "/tmp/download_npm.py", if initial = "1" then "sync_all" else "sync_incr"]

def gemsProgram : Job (List String) := return ["/tmp/run.sh"]

end Vetting.Sync
