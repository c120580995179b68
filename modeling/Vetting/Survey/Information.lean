import Vetting.Registry.Service

/-!
# What is kept about a package

The kept files about a package, read as one message.
-/

namespace Vetting.Survey

open Registry Job

def textEntry (k : String) (d : Doc) : Except Fault (String × Doc) := do
  return (k, .str (← Message.textValue d))

def dependencyMessage (name : String) (version : Doc) : Except Fault Doc := do
  return .obj [("package_name", .str name), ← textEntry "package_version" version]

def pinned (s : String) : Except Fault (List Doc) :=
  ((Text.splitOn s "\n").filter fun l => !l.isEmpty).mapM fun l =>
    match (Text.splitOn l "==").take 2 with
    | [name, version] => dependencyMessage name (.str version)
    | _ => .error (.cause .badValue)

def keptDeps (file : String) (format : Option String) (l : Language) : Job (List Doc) := do
  match format, l with
  | some "json", .javascript =>
    (← (← readDoc file).entries).mapM fun (name, info) => do dependencyMessage name (← info.at "version")
  | some "json", .ruby =>
    (← (← readDoc file).entries).mapM fun (name, version) => dependencyMessage name version
  | some "json", .php => stop (.failure "Not implemented yet!")
  | some "requirement", .python => pinned (← readText file)
  | some "json", _ | some "requirement", _ => return []
  | f, _ => stop (.failure ("Unhandled dependency format: " ++ f.getD "None"))

def joinTexts (d : Doc) : Except Fault String := do
  return Text.join "," (← (← d.items).mapM Doc.asText)

def rubyInfo (m : Doc) : Except Fault (List (String × Doc)) := do
  let name ← textEntry "package_name" (← m.at "name")
  let version ← textEntry "package_version" (← m.at "version")
  let authors := (Text.splitOn (← (← m.at "authors").text) ",").map Doc.str
  let homepage ← textEntry "homepage" (← m.at "homepage_uri")
  let license ← joinTexts (← m.at "licenses")
  return [name, version, ("authors", .arr authors), homepage, ("license", .str license)]

def pythonInfo (m : Doc) : Except Fault (List (String × Doc)) := do
  let name ← textEntry "package_name" (← m.at "Name")
  let version ← textEntry "package_version" (← m.at "Version")
  let author ← Message.textValue (← m.at "Author")
  let homepage ← textEntry "homepage" (← m.at "Home-page")
  let email ← textEntry "email" (← m.at "Author-email")
  let license ← textEntry "license" (← m.at "License")
  return [name, version, ("authors", .arr [.str author]), homepage, email, license]

def javaScriptInfo (m : Doc) : Except Fault (List (String × Doc)) := do
  let name ← textEntry "package_name" (← m.at "name")
  let version ← textEntry "package_version" (← m.at "version")
  let author ← Message.textValue (← m.at "author")
  let homepage ← textEntry "homepage" (← m.at "homepage")
  let license ← textEntry "license" (← m.findD "license" (.str ""))
  let url ← textEntry "url" (← (← m.at "repository").at "url")
  let kind ← textEntry "type" (← (← m.at "repository").at "type")
  let releases ← (← (← m.at "time").entries).mapM fun (k, v) => do
    return Doc.obj [("name", .str k), ← textEntry "timestamp" v]
  return [name, version, ("authors", .arr [.str author]), homepage, license,
    ("repository", .obj [url, kind]), ("releases", .arr releases)]

def keptInfo (file : String) (format : Option String) (l : Language) : Job (Option Doc) := do
  if format != some "json" then
    stop (.failure ("Unhandled metadata format: " ++ format.getD "None"))
  let m ← readDoc file
  match l with
  | .ruby => return some (.obj (← rubyInfo m))
  | .python => return some (.obj (← pythonInfo m))
  | .javascript => return some (.obj (← javaScriptInfo m))
  | .java | .php => stop (.failure "Not implemented yet!")
  | _ => return none

def information (name : String) (l : Language) (cacheDir version : Option String) : Job Doc := do
  let c ← Client.forLanguage l cacheDir true
  let some dir := cacheDir.filter fun d => !d.isEmpty | return .obj []
  if !(← exists? dir) then return .obj []
  let depFile := Path.join dir (c.depName name version false)
  let deps ← if ← exists? depFile then keptDeps depFile c.depFormat l else pure []
  let infoFile := Path.join dir (c.metadataName name version)
  let info ← if ← exists? infoFile then keptInfo infoFile c.metadataFormat l else pure none
  return Message.normal "PackageInfo" (.obj ((info.map fun d => [("info", d)]).getD [] ++ [("dependencies", .arr deps)]))

end Vetting.Survey
