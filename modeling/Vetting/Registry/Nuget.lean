import Vetting.Registry.Client

/-!
# Packages of the registry for the common language runtime

The registry answers questions about packages with documents, in which versions stand in groups.
-/

namespace Vetting.Registry.Nuget

open Client

def metadataUrl (name : String) (version : Option String) : String :=
  let base := "https://api.nuget.org/v3/registration1/" ++ Text.lower name
  match filled version with
  | some v => base ++ "/" ++ Text.lower v ++ ".json"
  | none => base ++ "/index.json"

def metadata (c : Client) (name : String) (version : Option String := none) : Job Doc :=
  c.keptMetadata name version (Job.fetchDoc (metadataUrl name version))

def timedVersions (info : Doc) : Except Fault (List (Doc × Time.Stamp)) := do
  let groups ← (← (← info.at "items").items).mapM fun g => do
    (← (← g.at "items").items).mapM fun d => do
      let version ← d.at "version"
      return (version, ← Time.ofDoc (← d.at "published"))
  return groups.flatten

def versions (c : Client) (name : String) (limit gapDays : Option Int) : Job (List Listed) := do
  match ← metadata c name with
  | .null => return []
  | info =>
    if !(← info.has "items") then return []
    Listed.thin limit gapDays (← timedVersions info)

def author (c : Client) (name : String) : Job Doc := do
  match ← metadata c name with
  | .null => return .obj []
  | info =>
    if !(← info.has "items") then return .obj []
    let groups ← (← info.at "items").items
    let authors ← groups.mapM fun g => (do
      if !(← g.has "items") then return []
      let authors ← (← (← g.at "items").items).mapM fun d => d.at "authors"
      authors.mapM Doc.asKey : Except Fault (List Doc))
    let distinct := authors.flatten.foldl (fun ds d => if ds.any (Doc.same d) then ds else ds ++ [d]) []
    return .obj [("authors", .arr distinct)]

def download (name : String) (version outdir : Option String) : Job (Option String) := do
  let base := "https://www.nuget.org/api/v2/package/" ++ Text.lower name
  let address := match filled version with
    | some v => base ++ "/" ++ Text.lower v
    | none => base
  let file := name ++ "." ++ version.getD "latest" ++ ".nupkg"
  Job.execute "nuget download (wget)" ["wget", address, "-O", file] outdir
  let p ← below outdir file
  return if ← Job.exists? p then some p else none

def install (name : String) (version : Option String) (o : RunOptions) : Job Unit := do
  let command := withSudo o.asRoot ["nuget", "install", name, "-DirectDownload"]
  let command := command ++ (match filled version with
    | some v => ["-Version", v]
    | none => [])
  runCommand "nuget install" (← tracedPackage name version o (Job.words command)) o.installDir

end Vetting.Registry.Nuget
