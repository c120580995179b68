import Vetting.Listing.Group
import Vetting.Markup

/-!
# Methods of classes

Methods are collected from several sheets and from a text of signatures, each once.
-/

namespace Vetting.Listing.Classes

/-- What a method counts as in the formula. -/
inductive Role where
  | source
  | sink
  | danger
deriving BEq, DecidableEq, Inhabited

/-- A method to be written: its class, the lines on what it does, and its roles. -/
structure Method where
  base : Option String
  name : String
  early : List Role := []
  doing : List Piece
  late : Except Halt (List Role) := .ok []

variable (m : Method) (line : Sheet.Line)

def Method.fullName : String := m.base.getD "None" ++ "." ++ m.name

def methodName (signature : String) : String :=
  (Text.splitOn (Text.stripOf ((Text.splitOn signature "(").headD "") " ") " ").getLastD ""

def refusal (message : String) (values : List Literal) : Halt :=
  .of (.failure (Literal.tuple (.text message :: values)).render)

def cell (column : String) : Except Halt (Option String) :=
  match line.cells.get? column with
  | some c => .ok c
  | none => .error (.of (.missingKey (Text.quoted column)))

def doingPieces (functionality field type : String) : List Piece :=
  [.ok ("\tfunctionality: " ++ functionality ++ "\n"), .ok ("\t" ++ field ++ ": " ++ type ++ "\n")]

def rolesOf (classification : String) : List Role :=
  let named (words : List String) := words.any (Text.contains classification)
  (if named ["Source", "Both"] then [Role.source] else [])
  ++ (if named ["Sink", "Both"] then [Role.sink] else [])
  ++ (if named ["Questionable"] then [Role.danger] else [])

def typedMethod : Except Halt (Option (Option String × String × String)) := do
  let type := (← cell line "Type").getD ""
  let base ← cell line "Package/Class"
  let signature ← cell line "Method"
  if type.isEmpty then return none
  let some signature := signature | throw (.ofCause .noMember)
  return some (base, methodName signature, type)

def ofLine : Except Halt (Option Method) := do
  let some (base, name, type) ← typedMethod line | return none
  let plain : Method := { base, name, doing := [] }
  let doing :=
    if Text.startsWith type "SOURCE_" then doingPieces "SOURCE" "source_type" type
    else if Text.startsWith type "SINK_" then doingPieces "SINK" "sink_type" type
    else [.error (refusal "Unexpected type %s for %s" [.text type, .text plain.fullName])]
  let late := do
    let some c ← cell line "Classification" | throw (Halt.ofCause .wrongType)
    return rolesOf c
  return some { plain with doing, late }

def packageTypes : List (String × List String) := [
  ("org.apache.http", ["SOURCE_NETWORK", "SINK_NETWORK"]),
  ("android.net", ["SOURCE_NETWORK", "SINK_NETWORK"]),
  ("java.net", ["SOURCE_NETWORK", "SINK_NETWORK"]),
  ("java.io", ["SOURCE_FILE", "SINK_FILE"]),
  ("java.util.Calendar", ["SOURCE_CALENDAR", "SINK_CALENDAR"]),
  ("android.database", ["SOURCE_DATABASE", "SINK_DATABASE"]),
  ("android.content", ["SOURCE_DATABASE", "SINK_DATABASE"]),
  ("android.location", ["SOURCE_DATABASE", "SINK_DATABASE"]),
  ("android.telephony", ["SOURCE_UNIQUE_IDENTIFIER", "SINK_SMS_MMS"]),
  ("android.os", ["SINK_SYSTEM"]),
  ("android.media", ["SOURCE_FILE", "SINK_FILE"]),
  ("android.util", ["SINK_LOG"]),
  ("android.accounts", ["SOURCE_ACCOUNT"]),
  ("android.bluetooth", ["SOURCE_BLUETOOTH"]),
  ("android.app", ["SINK_SYSTEM"]),
  ("android.provider.Browser", ["SOURCE_BROWSER", "SINK_BROWSER"])]

def packageType? (base start : String) : Option String :=
  match packageTypes.find? fun p => Text.startsWith base p.1 with
  | some (_, types) => types.find? fun t => Text.startsWith t start
  | none => none

/-- The lines on what a method of a package does. -/
def packagePieces (functionality field base : String) : List Piece :=
  [.ok ("\tfunctionality: " ++ functionality ++ "\n"),
   match packageType? base functionality with
   | some t => .ok ("\t" ++ field ++ ": " ++ t ++ "\n")
   | none => .error (.ofCause .outOfRange)]

/-- The method of a signature with its label. Comments and lines without a label have none. -/
def ofSignature (line : String) : Except Halt (Option Method) := do
  let line := Text.strip line
  if line.isEmpty || Text.startsWith line "%" || !Text.contains line "->" then return none
  let [generic, label] := Text.splitOn line "->" | throw (.ofCause .badValue)
  let generic := Text.stripOf ((Text.splitOn generic "> ").headD "") "<"
  let [base, signature] := Text.splitOn generic ":" | throw (.ofCause .badValue)
  let plain : Method := { base := some base, name := methodName signature, doing := [] }
  if Text.contains label "BOTH" then
    return some { plain with early := [.danger], doing := packagePieces "SINK" "sink_type" base }
  else if Text.contains label "SOURCE" then
    return some { plain with early := [.source], doing := packagePieces "SOURCE" "source_type" base }
  else if Text.contains label "SINK" then
    return some { plain with early := [.sink], doing := packagePieces "SINK" "sink_type" base }
  else
    return some { plain with
      doing := [.error (refusal "Unexpected classification %s for %s" [.text label, .text plain.fullName])] }

def Method.pieces (id : Nat) : List Piece :=
  [.ok (headText m.name m.fullName),
   match m.base with
   | some b => .ok (baseText b)
   | none => .error (.ofCause .wrongType)]
  ++ m.doing ++ [.ok (idText id), .ok endText]
  ++ (match m.late with
      | .ok _ => []
      | .error h => [.error h])

def Method.roles : List Role := m.early ++ (m.late.toOption.getD [])

/-- The lines of the methods, each once, and the formula over their numbers. -/
def settingsGo (known : List String) (id : Nat) (ids : List (Role × Nat)) :
    List (Except Halt (Option Method)) → List Piece
  | [] =>
    let having (r : Role) : List Nat := (ids.filter fun p => p.1 == r).map Prod.snd
    [.ok (formula (having .source) (having .sink) [having .danger])]
  | .error h :: _ => [.error h]
  | .ok none :: rest => settingsGo known id ids rest
  | .ok (some m) :: rest =>
    if known.contains m.fullName then settingsGo known id ids rest
    else m.pieces id ++ settingsGo (m.fullName :: known) (id + 1) (ids ++ m.roles.map fun r => (r, id)) rest

def settings (ms : List (Except Halt (Option Method))) : List Piece := settingsGo [] 1 [] ms

def sheetsDir : String := "java_CSVs/"

def signaturesFile : String := "SourcesAndSinks.txt"

def inTurn {α β : Type} (j : Job (List α)) (f : α → Except Halt β) : Job (List (Except Halt β)) := do
  match ← j.attempt with
  | .ok xs => return xs.map f
  | .error e => return [.error (.of e)]

def sheetNames : Job (List String) := do return (← Job.list sheetsDir).filter fun n => Text.endsWith n ".csv"

def sheetMethods : Job (List (Except Halt (Option Method))) := do
  match ← sheetNames.attempt with
  | .error e => return [.error (.of e)]
  | .ok names =>
    let found ← names.mapM fun n => inTurn (do return (Sheet.ofText (← Job.readText (sheetsDir ++ n))).rows) ofLine
    return found.flatten

def writeSettings : Job Unit := do
  let target := "../astgen_java_smt.config"
  Job.writeText target ""
  let fromSheets ← sheetMethods
  let fromText ← inTurn (do return Text.feedLines (← Job.readText signaturesFile)) ofSignature
  writePieces target (settings (fromSheets ++ fromText))

end Vetting.Listing.Classes

/-! ## Signatures of methods

For a flow analysis the methods of the sheets are written by their signatures, which are taken from
the pages of the documentation of their classes.
-/

namespace Vetting.Listing.Signatures

open Vetting.Markup

def isSummary (e : Element) : Bool := e.tag = "table" && Page.hasClass ["class", "memberSummary"] e

/-- The signatures in a section of a page. Constructors and methods cannot be taken apart, so that only sections
without members are passed. -/
def sectionSignatures (e : Element) : Except Fault (List String) := do
  let inner := e.inside
  let has (id : String) : Bool := inner.any fun x => x.attribute? "id" == some id
  let summary := ((inner.find? isSummary).map Element.inside).getD []
  if has "constructor.summary" then
    match summary.find? fun x => x.tag = "th" && Page.hasClass ["colConstructorName"] x with
    | none => return []
    | some th =>
      match th.inside.find? fun x => x.tag = "a" with
      | none => throw (.cause .noMember)
      | some link => throw (.cause (if (link.attribute? "href").isSome then .noMember else .wrongType))
  else if has "method.summary" then
    if summary.any fun x => x.tag = "tr" && (x.attribute? "id").isSome then throw (.cause .noMember)
    return []
  else return []

def pageSignatures (page : String) : Except Fault (List String) := do
  let sections := (Page.elements page).filter fun e =>
    e.tag = "section" && e.inside.any isSummary
  return (← sections.mapM sectionSignatures).flatten

/-- The signatures of a class, from its page, which is fetched once. -/
def classSignatures (base : Option String) (method : String) : Job (List String) := do
  let some base := base | Job.fault .noMember
  if !Text.startsWithAny base ["java.", "javax."] then
    Job.stop (.failure ("Not handling signature generation for class " ++ base ++ ", method " ++ method))
  let file := "class_cache/" ++ base ++ ".html"
  if !(← Job.exists? file) then
    let page ← Job.fetchText ("https://docs.oracle.com/javase/10/docs/api/" ++ Text.replace base "." "/" ++ ".html")
    Job.writeText file page
  pageSignatures (← Job.readText file)

variable (line : Sheet.Line)

def lineLiteral : Literal :=
  let value : Option String → Literal
    | some s => .text s
    | none => .none
  .dict (line.cells.map (fun (k, v) => (Literal.text k, value v))
    ++ (if line.extra.isEmpty then [] else [(Literal.none, Literal.list (line.extra.map .text))]))

def labelOf : Except Halt String := do
  let some c ← Classes.cell line "Classification" | throw (Halt.ofCause .wrongType)
  if Text.contains c "Sink" then return "_SINK_"
  if Text.contains c "Source" then return "_SOURCE_"
  if Text.contains c "Questionable" then return "_SINK_"
  if Text.contains c "Both" then return "_BOTH_"
  throw (Classes.refusal "Unhandled classification for %s" [lineLiteral line])

def linesOf : Job (List String) := do
  match ← required (Classes.typedMethod line) with
  | none => return []
  | some (base, method, _) =>
    let signatures := (← classSignatures base method).filter fun s => Classes.methodName s = method
    let label ← required (labelOf line)
    return signatures.map fun s => "<" ++ base.getD "" ++ ": " ++ s ++ "> -> " ++ label ++ "\n"

def addLines (target : String) (known new : List String) : Job (List String) := do
  let fresh := (distinct new).filter fun l => !known.contains l
  Job.appendText target (Text.join "" fresh)
  return known ++ fresh

/-- Writes the signatures of the methods of the sheets, and those of the file of signatures. -/
def writeSignatures : Job Unit := do
  let target := "../static_java_SourcesAndSinks.txt"
  Job.writeText target ""
  let mut known : List String := []
  for name in ← Classes.sheetNames do
    let sheet := Sheet.ofText (← Job.readText (Classes.sheetsDir ++ name))
    for line in sheet.rows do
      known ← addLines target known (← linesOf line)
  let _ ← addLines target known (Text.feedLines (← Job.readText Classes.signaturesFile))

end Vetting.Listing.Signatures
