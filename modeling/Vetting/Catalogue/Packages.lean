import Vetting.Catalogue.Downloads
import Vetting.Markup
import Vetting.Network

/-!
# All packages of a registry

The names of all packages of a registry, as its index, its command or its pages tell them, written as
a list of packages.
-/

namespace Vetting.Catalogue

open Registry Network Job Text

def columns : List String := ["package name", "version", "source", "downloads", "language"]

def languageOf : Kind → Option Language
  | .pypi => some .python
  | .npmjs => some .javascript
  | .rubygems => some .ruby
  | .maven | .jcenter | .jitpack => some .java
  | .nuget => some .csharp
  | .packagist => some .php
  | .dockerhub => some .docker
  | _ => none

def packageLine (k : Kind) (name : Doc) (counts : Option Downloads) : Sheet.Line :=
  { cells := [("package name", if name.isNull then none else some name.shown), ("source", some k.word),
      ("downloads", counts.map fun d => d.toDoc.shown), ("language", (languageOf k).map Language.word)] }

/-- Writes a list of packages, perhaps with their downloads, which several workers ask for first. -/
def writePackages (names : List Doc) (k : Kind) (outfile : String) (stats : Bool) (workers : Int) : Job Unit := do
  writeText outfile (Sheet.writeLine columns)
  let text (n : Doc) : Option String := if n.isNull then none else some n.shown
  if stats && workers > 1 then
    let counted ← names.mapM fun n => do return (n, ← downloads (some k) (text n))
    for (n, d) in counted do
      addLine outfile columns (packageLine k n (some d))
  else
    for n in names do
      let counts ← if stats then some <$> downloads (some k) (text n) else pure none
      addLine outfile columns (packageLine k n counts)

/-! ## Indexes -/

def declaresEncoding (s : String) : Bool :=
  startsWith s "<?xml" && contains (String.ofList (s.toList.takeWhile (· != '>'))) " encoding="

def linkNames (page : String) : Except Fault (List Doc) := do
  if declaresEncoding page then throw (.cause .badValue)
  let some root := Markup.Xml.parse? page | throw (.cause .badPage)
  return ((root :: root.inside).filter fun e => e.tag = "a" && (e.attribute? "href").isSome).map fun e =>
    Doc.ofStr? e.text

def invalidChars : List Char := "?!*~'()\x7b\x7d| \"".toList

def isNpmjsName (name : String) : Bool :=
  let cs := name.toList
  !cs.any invalidChars.contains && (!cs.contains '@' || cs.head? = some '@')

def npmjsNames : Job (List Doc) := do
  let dir ← temporaryDir "all-the-package-names-"
  execute "tar -zxf all-the-package-names"
    ["tar", "-zxf", "third-party/all-the-package-names-1.3544.0.tar.gz", "--strip", "1", "-C", dir]
  execute "npm install dependencies" ["npm", "install"] (some dir)
  execute "npm run-script build" ["npm", "run-script", "build"] (some dir)
  let names ← readDoc (Path.join dir "names.json")
  removeTree dir
  (← names.items).filterM fun n => do return isNpmjsName (← n.asText)

def gemName? (line : String) : Option String :=
  let isPart (c : Char) : Bool := c != '(' && c != ')' && c != ' '
  let name := line.toList.takeWhile isPart
  match line.toList.drop name.length with
  | ' ' :: '(' :: rest =>
    let inside := rest.takeWhile (· != ')')
    if name.isEmpty || inside.isEmpty || inside.length = rest.length then none else some (String.ofList name)
  | _ => none

def gemNames : Job (List Doc) := do
  let out ← outputText (← output? "gem search" ["gem", "search"])
  return ((splitOn out "\n").filterMap gemName?).map .str

/-- The first entry and how many further lines belong to it: an entry longer than the next line goes on there,
unless both have a space. -/
def firstEntry (line : String) (rest : List String) : String × Nat :=
  match rest with
  | next :: _ =>
    let spaced (s : String) : Bool := s.toList.contains ' '
    if next.length < line.length && !(spaced line && spaced next) then
      (if spaced line || spaced next then line ++ next else line ++ " " ++ next, 1)
    else (line, 0)
  | [] => (line, 0)

/-- The names in lines of a name and a version, some of which are broken in two. -/
def brokenNames : List String → Except Fault (List String)
  | [] => .ok []
  | line :: rest => do
    let (entry, more) := firstEntry line rest
    match cutFirst ' ' entry.toList with
    | some (name, _) => return String.ofList name :: (← brokenNames (rest.drop more))
    | none => throw (.cause .badValue)
termination_by lines => lines.length
decreasing_by simp_wf <;> omega

def nugetNames (infile : Option String) : Job (List Doc) := do
  let out ← match infile with
    | none => do outputText (← output? "nuget list" ["nuget", "list"])
    | some p => readText p
  return (← brokenNames ((splitOn out "\n").filter fun s => !s.isEmpty)).map .str

/-! ## Pages of directories -/

def leafEndings : List String :=
  [".jar", ".md5", ".sha1", ".pom", ".xml", ".gz", ".zip", ".block", ".aar", ".war", ".asc", ".htm", ".html", ".jsp",
    ".txt", ".tgz", ".tar", ".dmg", "exe"]

def packageMarks : List String := ["maven-metadata.xml", "maven-metadata.xml.sha1", "maven-metadata.xml.md5"]

/-- A site of directories with a page for each. -/
structure Site where
  start : String
  /-- What the addresses of all pages have. -/
  host : String
  /-- What stands before the path of a package. -/
  before : String
  /-- Links may begin with a colon, and those that begin with a dot do not count. -/
  colons : Bool
  /-- The endings of files that only a directory has which leads to no package. -/
  barriers : List String
deriving Inhabited

def mavenSite : Site :=
  { start := "https://repo1.maven.org/maven2/", host := "repo1.maven.org", before := "/maven2/", colons := false
    barriers := [".jar", ".pom", ".aar", ".war"] }

def jcenterSite : Site :=
  { start := "http://jcenter.bintray.com/", host := "jcenter.bintray.com", before := "/jcenter.bintray.com/"
    colons := true, barriers := [] }

def present (links : List (Option String)) : Except Fault (List String) :=
  links.mapM fun l =>
    match l with
    | some h => .ok h
    | none => .error (.cause .noMember)

def Site.links (s : Site) (page : String) : Except Fault (List (Option String)) := do
  let found := ((Markup.Page.elements page).filter fun e => e.tag = "a").map fun e => e.attribute? "href"
  if !s.colons then return distinct found
  let stripped := distinct ((← present found).map fun l => lstripOf l ":")
  return (stripped.filter fun l => !startsWith l ".").map some

/-- What a page is: that of a package, or one that leads to others. -/
inductive PageKind where
  | package (path : String)
  | directory (next : List String)
deriving BEq, DecidableEq, Inhabited

def afterFirst (s mark : String) : String :=
  match findChars mark.toList s.toList with
  | some n => String.ofList (s.toList.drop (n + mark.length))
  | none => s

def Site.read (s : Site) (url page : String) : Except Fault PageKind := do
  let links ← s.links page
  if links.any fun l => packageMarks.any fun m => l = some m then return .package (afterFirst url s.before)
  let links ← present links
  if links.any fun l => endsWithAny l s.barriers then return .directory []
  let inner ← links.filterM fun l => do
    if startsWith l ".." || endsWithAny l leafEndings then return false
    return contains (← Address.join url l) s.host
  let next ← (inner.filter fun l => endsWith l "/").mapM fun l => Address.join url l
  return .directory (next.filter (· != url))

/-- Goes through the pages of a site, the innermost first, for packages. -/
def Site.walk (s : Site) : Nat → List String → List String → Job (List String)
  | 0, found, _ => return found
  | _, found, [] => return found
  | fuel + 1, found, url :: urls => do
    let some page ← output? "curl" ["curl", url] | fault .wrongType
    match ← s.read url page with
    | .package p => s.walk fuel (addNew found p) urls
    | .directory next => s.walk fuel found (next ++ urls)

def pathName? (path : String) : Option String :=
  (cutLast '/' (stripOf path "/").toList).map fun (group, artifact) =>
    String.ofList (group.map fun c => if c = '/' then '.' else c) ++ "/" ++ String.ofList artifact

def Site.names (s : Site) : Job (List Doc) := do
  return ((← s.walk (maxCommands + 1) [] [s.start]).filterMap pathName?).map .str

def groupsIn (file : String) : Job (List String) := do
  (← readSheet file).rows.mapM fun r => do
    match r.cells.get? "package name" with
    | some (some name) => return (splitOn name "/").headD ""
    | some none => fault .noMember
    | none => stop (Doc.missing "package name")

def searchAddress (url group : String) : Except Fault String := do
  let a ← Address.ofText url
  let pairs := Table.set (Table.ofPairs (queryPairs a.query)) "q" group
  return { a with query := queryText pairs }.text

/-- What a search for the groups of other lists finds, if anything. -/
def searchGroups (url jcenterFile mavenFile : String) : Job (List String) := do
  let maven ← groupsIn mavenFile
  let jcenter ← groupsIn jcenterFile
  let mut found : List String := []
  for group in distinct (maven ++ jcenter) do
    match ← attempt (do (← fetchDoc (← searchAddress url group)).keys) with
    | .ok names => found := names.foldl addNew found
    | .error f => if !f.isOrdinary then stop f
  return found

def jitpackNames : Job (List Doc) := do
  let found ← searchGroups "https://jitpack.io/api/search" "../data/jcenter.csv" "../data/maven.csv"
  return found.filterMap fun p =>
    (cutFirst ':' p.toList).map fun (g, a) => .str (String.ofList g ++ "/" ++ String.ofList a)

def packageNames (k : Kind) (infile : Option String) : Job (List Doc) := do
  match k with
  | .pypi => linkNames (← fetchText "https://pypi.python.org/simple/")
  | .npmjs => npmjsNames
  | .rubygems => gemNames
  | .packagist => (← (← fetchDoc "https://packagist.org/packages/list.json").at "packageNames").items
  | .maven => mavenSite.names
  | .jcenter => jcenterSite.names
  | .jitpack => jitpackNames
  | .nuget => nugetNames infile
  | .dockerhub | .cpan => stop (.failure "Not implemented yet!")
  | k => stop (.failure ("package manager " ++ k.word ++ " not supported yet!"))

def crawl (k : Kind) (outfile : String) (infile : Option String := none) (stats : Bool := false) (workers : Int := 1) :
    Job Unit := do
  writePackages (← packageNames k infile) k outfile stats workers

end Vetting.Catalogue
