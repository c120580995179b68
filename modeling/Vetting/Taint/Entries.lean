import Vetting.Taint.Flow

/-!
# Flows between entries

A checker of PHP applications takes lists of sources and sinks and reports flows by the names they pass.
-/

/-!
## Entries of sources and sinks

What the analysis reports is matched with entries and with the functions of the settings by the equal name,
or, where names may be parts of longer expressions, by the longest name that occurs.
-/

namespace Vetting.Taint

def entryName (e : Doc) : Except Fault Doc := do
  if ← e.has "instanceof" then
    let base ← e.at "instanceof"
    let name ← e.at "name"
    return .str (base.shown ++ "::" ++ name.shown)
  else e.at "name"

def isKnown (entries : List Doc) (e : Doc) : Except Fault Bool := do
  match entries with
  | [] => return false
  | x :: xs => do
    if Doc.same (← entryName x) (← entryName e) then return true
    isKnown xs e

abbrev ByName (α : Type) := List (Doc × α)

def ByName.set {α : Type} (k : Doc) (v : α) : ByName α → ByName α
  | [] => [(k, v)]
  | (k', v') :: t => if Doc.same k k' then (k', v) :: t else (k', v') :: ByName.set k v t

def ByName.get? {α : Type} (t : ByName α) (k : Doc) : Option α :=
  (t.find? fun p => Doc.same p.1 k).map Prod.snd

def nameOccurs (k name : Doc) : Except Fault Bool :=
  match name, k with
  | .str s, .str k => .ok (Text.contains s k)
  | .arr xs, k => .ok (xs.any fun x => Doc.same x k)
  | .obj fs, .str k => .ok (fs.any fun p => p.1 == k)
  | .obj _, _ => .ok false
  | _, _ => Doc.wrongType

def longest {α : Type} : List (Nat × α) → Option α
  | [] => none
  | (n, x) :: rest =>
    match rest.find? fun p => n < p.1 with
    | none => some x
    | some _ => longest rest

def nameLength (k : Doc) : Except Fault Nat := k.size

/-- The thing of a name, in fuzzy mode else the one with the longest name of those that fit. -/
def pick {α : Type} (named : ByName α) (name : Doc) (fuzzy : Bool) (fits : Doc × α → Except Fault Bool) :
    Except Fault (Option α) := do
  match named.get? name with
  | some x => return some x
  | none =>
    if !fuzzy then return none
    let found ← named.filterM fits
    return longest (← found.mapM fun (k, x) => do return (← nameLength k, x))

/-- The function of a reported name. In fuzzy mode a name that occurs in it fits. -/
def matchingApi (node : Doc) (apis : List Api.Node) (fuzzy : Bool) : Except Fault (Option Api.Node) := do
  let named : ByName Api.Node := apis.foldl (fun t a => ByName.set (.str a.name) a t) []
  let name ← (← node.at "name").asKey
  pick named name fuzzy fun p => nameOccurs p.1 name

/-- The entry of a reported name. In fuzzy mode an entry fits whose name occurs in its own name. -/
def matchingEntry (node : Doc) (entries : List Doc) (fuzzy : Bool) : Except Fault (Option Doc) := do
  let named ← entries.foldlM (fun (t : ByName Doc) e => do
    return ByName.set (← (← e.at "name").asKey) e t) []
  let name ← (← node.at "name").asKey
  pick named name fuzzy fun p => do nameOccurs p.1 (← p.2.at "name")

end Vetting.Taint

/-! ## Flows between entries -/

namespace Vetting.Taint.Entries

structure Station where
  name : Doc
  row : Doc
  column : Doc
  file : Doc
deriving Inhabited

variable (s : Station) (apis : List Api.Node) (c : Api.Config) (a : Api.Node)

def Station.toDoc : Doc :=
  .obj [("name", s.name), ("row", s.row), ("column", s.column), ("file", s.file)]

/-- The place of a station, at which it starts and ends. -/
def Station.span : Except Fault Api.Span := do
  let info := fileOf (← s.file.asText)
  let row ← Message.wholeValue s.row
  let column ← Message.wholeValue s.column
  let place : Api.Place := { row, column, fileInfo := some info }
  return { start := some place, finish := some place }

def named (kind : Api.NodeKind) (s : Station) (entry : Doc) (api : Option Api.Node) : Except Fault Api.Node := do
  match api with
  | some a =>
    let source ← Message.textValue s.name
    return { kind, id := a.id, name := a.name, baseType := a.baseType, fullName := a.fullName, source
             range := some (← s.span) }
  | none =>
    let name ← Message.textValue (← entry.at "name")
    let baseType ← if ← entry.has "instanceof" then Message.textValue (← entry.at "instanceof") else pure ""
    let fullName ← Message.textValue (← entryName entry)
    let source ← Message.textValue s.name
    return { kind, name, baseType, fullName, source, range := some (← s.span) }

def sourceNode (sources : List Doc) : Except Fault Api.Node := do
  match ← matchingEntry s.toDoc sources true with
  | none => return {}
  | some entry =>
    if !entry.truthy then return {}
    let isFunction ← if ← entry.has "is_function" then (do return (← entry.at "is_function").truthy) else pure false
    let kind := if isFunction then Api.NodeKind.functionRef else .variableRef
    named kind s entry (← matchingApi s.toDoc apis true)

def sinkNode (sinks : List Doc) : Except Fault Api.Node := do
  match ← matchingEntry s.toDoc sinks false with
  | none => return {}
  | some entry =>
    if !entry.truthy then return {}
    named .functionRef s entry (← matchingApi s.toDoc apis false)

def hopNode : Except Fault Api.Node := do
  let name ← Message.textValue s.name
  return { name, range := some (← s.span) }

def stations (flow : Doc) : Except Fault (List Station) := do
  let sink : Station :=
    { name := ← flow.at "sink_name", row := ← flow.at "sink_line", column := ← flow.at "sink_column"
      file := ← flow.at "sink_file" }
  let first (k : String) : Except Fault Doc := do (← flow.at k).atPlace 0
  let source : Station :=
    { name := ← first "source_name", row := ← first "source_line", column := ← first "source_column"
      file := ← first "source_file" }
  let tainted ← (← (← flow.at "tainted_flow").items).mapM fun part => do
    (← part.items).mapM fun node => do
      return ({ name := ← node.at "flow_name", row := ← node.at "flow_line", column := ← node.at "flow_column"
                file := ← node.at "flow_file" } : Station)
  return (sink :: source :: tainted.flatten).reverse

def flowOf (sourceApis sinkApis : List Api.Node) (sources sinks : List Doc) (flow : Doc) : Except Fault Flow := do
  let stops ← stations flow
  let source ← sourceNode (stops.headD default) sourceApis sources
  let sink ← sinkNode (stops.getLastD default) sinkApis sinks
  let hops ← (stops.drop 1).dropLast.mapM hopNode
  let name ← Message.textValue (← flow.at "vuln_name")
  let cwe ← Message.textValue (← flow.at "vuln_cwe")
  let type ← Message.textValue (← flow.at "vuln_type")
  return { source := some source, hops, sink := some sink, info := some (name, cwe, type) }

def listed (entries : List Doc) : Except Fault (List Api.Node) := do
  let names ← entries.mapM fun e => do (← entryName e).asKey
  return apis.filter fun a => names.any fun n => Doc.same n (.str a.fullName)

def reformat (config : String) (sources sinks : List Doc) (resultFile outfile : String) : Job Unit := do
  match ← readResult resultFile with
  | none => return
  | some result =>
    let config := Api.Config.ofDoc (← Job.readMessage "AstLookupConfig" config)
    let sourceApis ← listed config.apis sources
    let sinkApis ← listed config.apis sinks
    let flows ← (do (← result.items).mapM (flowOf sourceApis sinkApis sources sinks) : Except Fault (List Flow))
    FlowReport.write { flows } outfile

/-! ### Lists for the checker -/

def classField : List (String × Doc) :=
  if !c.funcOnly && !a.baseType.isEmpty then [("instanceof", .str a.baseType)] else []

/-- The entry of a source in the settings; arguments cannot be told apart in sources. -/
def sourceEntry : Except Fault Doc := do
  if !a.argNodes.isEmpty then
    throw (.failure ("Cannot handle arg_nodes for Sources now: " ++ Message.toText "AstNode" a.toDoc))
  return .obj ([("name", Doc.str a.name), ("is_function", .bool true), ("language", .str "php")] ++ classField c a)

/-- The entry of a sink in the settings; a sink without arguments that matter has none. -/
def sinkListing : Option Doc :=
  if a.argNodes.isEmpty then none
  else some (.obj ([("name", Doc.str a.name), ("language", .str "php"), ("attack", .str "maloss_sink"),
    ("cwe", .str "CWE_89")] ++ classField c a
    ++ [("parameters", Doc.arr (a.argNodes.map fun n => .obj [("id", .int (Api.intOf n "id"))]))]))

def extended (entries : Doc) (new : List Doc) : Except Fault (List Doc) := do
  let .arr known := entries | throw (.cause .wrongType)
  let fresh ← new.filterM fun e => do return !(← isKnown known e)
  return known ++ fresh

/-- Writes lists of sources and sinks, with new entries after the known ones. -/
def writeExtended (known knownSinks : Doc) (new : List Doc × List Doc) (sources sinks : String) : Job Unit := do
  let allSources ← extended (← known.at "sources") new.1
  let allSinks ← extended (← knownSinks.at "sinks") new.2
  Job.writePretty sources (.obj [("sources", .arr allSources)])
  Job.writePretty sinks (.obj [("sinks", .arr allSinks)])

def entriesOf : Except Fault (List Doc × List Doc) := do
  let sources ← (c.apis.filter fun a => a.role = .source).mapM (sourceEntry c)
  let sinks := (c.apis.filter fun a => a.role = .sink || a.role = .danger).filterMap (sinkListing c)
  return (sources, sinks)

/-- Writes the lists for the checker, whose own settings cannot be read then. -/
def writeLists (config newSources newSinks sources sinks checkerConfig : String) : Job Unit := do
  let known ← Job.readDoc sources
  let knownSinks ← Job.readDoc sinks
  let c := Api.Config.ofDoc (← Job.readMessage "AstLookupConfig" config)
  writeExtended known knownSinks (← entriesOf c) newSources newSinks
  let _ ← Job.readText checkerConfig
  Job.fault .wrongType

/-- Checks a package, which stops once the lists were made. -/
def check (config : Option String) : Job Unit := do
  for suffix in [".json", ".json", ".yml", ".json"] do
    let _ ← Job.temporaryFile "tmp" suffix
  let some config := config | Job.fault .wrongType
  let c := Api.Config.ofDoc (← Job.readMessage "AstLookupConfig" config)
  let _ ← (entriesOf c : Except Fault _)
  Job.fault .wrongType

end Vetting.Taint.Entries
