import Vetting.Archive.Signature
import Vetting.Survey.Comparison
import Vetting.Survey.Dependencies

/-!
# Comparing registries

The same packages in several registries should be the same. Where the digests of a version differ,
the packages may be looked into.
-/

namespace Vetting.Survey

open Registry Job

def contentDigests (file : Option String) : Job (List (String × String)) := do
  let some file := file | fault .wrongType
  let _ ← content file
  fault .wrongType

/-- A registry that takes part in a comparison. -/
structure Source where
  word : String
  client : Client
  language : Language
deriving Inhabited

/-- The sources that take part, and the packages that all lists have. -/
structure Common where
  sources : List Source := []
  packages : List String := []
deriving Inhabited

def addRowSource (cacheDir : Option String) (sources : List Source) (r : Sheet.Line) :
    Job (List Source × String) := do
  let word ← Package.Row.cell r.cells "source"
  let language ← Package.Row.cell r.cells "language"
  let sources ← if sources.any fun s => some s.word = word then pure sources else do
    let some word := word | fault .badValue
    let client ← Client.make (← (← Kind.ofWord word).served) cacheDir true
    let some language := language | fault .badValue
    let l ← Analysis.analysed (← Language.ofWord language)
    pure (sources ++ [{ word, client, language := l }])
  return (sources, ← nameOf r)

variable (c : Common) (results : Doc)

def addList (first : Bool) (infile : String) (cacheDir : Option String) : Job Common := do
  let mut sources := c.sources
  let mut names : List String := []
  for r in (← readSheet infile).rows do
    let (more, name) ← addRowSource cacheDir sources r
    sources := more
    names := addNew names name
  return { sources, packages := if first then names else common c.packages names }

def addLists (lists : List (String × Option String)) : Job Common := do
  let mut c : Common := {}
  let mut first := true
  for (infile, cacheDir) in lists do
    c ← addList c first infile cacheDir
    first := false
  return c

/-- Asks for the digests of all packages, which cannot be compared once one is known. -/
def askDigests : Job Unit := do
  for name in c.packages do
    let mut known := false
    for s in c.sources do
      if (← s.client.digests name).any fun d => !d.2.isNull then known := true
    if known then fault .wrongType

def versionsIn : Except Fault (List (String × String)) := do
  return (← (← results.items).mapM fun p => do
    let name ← p.asText
    (← (← results.at name).items).mapM fun v => do return (name, ← v.asText)).flatten

def keepVersions (kept : List (String × String)) : Except Fault Doc := do
  return .obj (← kept.foldlM (fun (t : Table String Doc) (name, version) => do
    let found ← (← results.at name).at version
    return t.modify name (.obj []) fun d => d.setField version found) [])

/-- Looks into the packed packages of versions; what they hold cannot be compared. -/
def inspectContent : Job Doc := do
  for (name, version) in ← versionsIn results do
    for s in c.sources do
      let dir ← temporaryDir ("get_" ++ s.word ++ "_content_hash-")
      let file ← s.client.download name (some version) (some dir)
      let _ ← contentDigests file
      removeTree dir
  return .obj []

/-- How often the interfaces are used in a version of a source, if known. -/
def apiCounts (s : Source) (name version : String) (config : Option String) : Job (Option Counts) := do
  let dir ← temporaryDir ("get_" ++ s.word ++ "_api-")
  match ← Analysis.usesOf s.language s.client name dir config (some version) with
  | none => return none
  | some r =>
    let counts := (← r.first).uses.foldl (fun (c : Counts) n => c.add n.fullName) []
    removeTree dir
    return some counts

def sameCounts (c d : Counts) : Bool := c.length = d.length && c.all fun (k, n) => d.get? k = some n

def differ : List Counts → Bool
  | c :: d :: rest => !sameCounts c d || differ (d :: rest)
  | _ => false

def inspectApis (config : Option String) (results : Doc) : Job Doc := do
  let mut kept : List (String × String) := []
  for (name, version) in ← versionsIn results do
    let counts ← c.sources.filterMapM fun s => apiCounts s name version config
    if differ counts then kept := kept ++ [(name, version)]
  keepVersions results kept

structure RegistryComparison where
  infiles : List String
  cacheDirs : List (Option String)
  outfile : Option String
  /-- A file of differences that were found before. -/
  found : Option String := none
  content : Bool := false
  apis : Bool := false
  config : Option String := none
deriving Inhabited

/-- Compares the packages that several lists have. -/
def RegistryComparison.run (c : RegistryComparison) : Job Unit := do
  let known ← addLists (c.infiles.zip c.cacheDirs)
  let results ← match c.found with
    | none => do
      askDigests known
      pure (Doc.obj [])
    | some p => readDoc p
  let results ← if c.content then inspectContent known results else pure results
  let results ← if c.apis then inspectApis known c.config results else pure results
  match c.outfile.filter fun p => !p.isEmpty with
  | some p => writePretty p results
  | none => return

end Vetting.Survey
