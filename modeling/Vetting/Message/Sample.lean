import Vetting.Command.Commands

/-!
# Sample reports

A flow from a file to the network and a dangerous call, and the sources and sinks of a module.
-/

/-!
## Messages from one form to the other

Only messages of sources and of modules can be read, although the names of others are taken.
-/

namespace Vetting.Message

def readableShapes : List String := [
  "FileInfo", "SourceLocation", "SourceRange", "AstNode", "AstLookupConfig", "PkgAstResult", "PkgAstResults",
  "ModuleSource", "ModuleSink", "ModuleTaintWrapper", "ModuleFlow", "ModuleDanger", "ModuleSummary", "ModuleResult",
  "ModuleStatic"]

def plainEnumerations : List String := [
  "Language", "Functionality", "SourceType", "SinkType", "DangerType", "PropagateType"]

def otherShapes : List String := [
  "ExecutionType", "AnalysisType", "NetworkActivity", "FileActivity", "SensitivenActivity", "ProcessActivity",
  "DynamicAnalysis", "StaticAnalysis", "ConcolicAnalysis", "AnalysisResult", "ReleaseInfo", "RepositoryInfo",
  "ExecuteInfo", "PackageInfo", "Centroid", "BasicBlockProto", "MethodAttributeProto", "ClassAttributeProto",
  "ClassRelationProto", "MethodRelationProto", "ClassMethodRelationProto", "MethodClassRelationProto",
  "PkgClassMethodResult", "PkgClassMethodResults"]

def convertForm : Command.Form :=
  { items := [
      (Command.option "infile" "i").needed, (Command.option "outfile" "o").needed,
      ((Command.option "type" "t").among (readableShapes ++ plainEnumerations ++ otherShapes)).needed,
      Command.switch "reverse" "r"] }

def readBinaryFile (shape p : String) : Job Doc := do
  match ofBytes? shape (← Job.readBytes p) with
  | some d => return d
  | none => Job.fault .badMessage

def writeBinaryFile (shape p : String) (d : Doc) : Job Unit := Job.write p (.bytes (toBytes shape d))

def convert (argv : List String) : Job Unit := do
  let values ← Command.read convertForm argv
  let text (k : String) : String := ((values.get? k).getD .null).strD ""
  let shape := text "type"
  if plainEnumerations.contains shape then Job.fault .wrongType
  if !readableShapes.contains shape then
    Job.stop (.failure ("proto_type " ++ shape ++ " is not available in ast_pb2 or module_pb2"))
  if ((values.get? "reverse").getD .null).truthy then
    Job.writeMessage shape (text "outfile") (← readBinaryFile shape (text "infile"))
  else
    writeBinaryFile shape (text "outfile") (← Job.readMessage shape (text "infile"))

end Vetting.Message

/-! ## Sample reports -/

namespace Vetting.Message.Sample

def str (s : String) : Doc := .str s

def strs (ss : List String) : Doc := .arr (ss.map .str)

def place (file : String) (row column : Int) : Doc :=
  .obj [("row", .int row), ("column", .int column),
    ("file_info", .obj [("filename", str file), ("relpath", str "relpath/to/dir")])]

def use (base name : String) (arguments : List String) (id : Int) (file : String) (row first last : Int)
    (more : List (String × Doc) := []) : Doc :=
  .obj ([("type", str "FUNCTION_DECL_REF_EXPR"), ("name", str name), ("full_name", str (base ++ "." ++ name)),
    ("base_type", str base), ("arguments", strs arguments), ("id", .int id),
    ("range", .obj [("start", place file row first), ("end", place file row last)])] ++ more)

def source (type : String) : Doc :=
  use "file" "read" ["\"/home/maloss/.ssh/id_rsa\"", "\"r\""] 22 "source_filename.py" 10 20 40
    [("source_type", str type)]

def sink (type : String) : Doc :=
  use "network" "send" ["\"https://www.malicious.com\"", "\"non-blocking\""] 88 "sink_filename.py" 200 8 100
    [("sink_type", str type)]

def danger : Doc := use "subprocess" "exec" ["\"rm\"", "\"-rf\"", "\"/\""] 66 "danger_filename.py" 888 0 99

def offered (name : String) (arguments : List String) : Doc :=
  .obj [("type", str "FUNCTION_DECL"), ("name", str name), ("full_name", str ("requests." ++ name)),
    ("base_type", str "requests"), ("arguments", strs arguments)]

def resultFields : List (String × Doc) := [
  ("flows", .arr [.obj [("source", source "SOURCE_FILE"), ("hops", .arr [.obj []]), ("sink", sink "SINK_NETWORK")]]),
  ("dangers", .arr [.obj [("danger", danger)]])]

def summaryFields : List (String × Doc) := [
  ("sources", .arr [.obj [("node", offered "get" ["url", "mode"]),
    ("reachable_sources", .arr [source "SOURCE_NETWORK"])]]),
  ("sinks", .arr [.obj [("node", offered "post" ["url", "mode", "data"]),
    ("reachable_sinks", .arr [sink "SINK_NETWORK"])]])]

def reports : List (String × String × Doc) :=
  [("result", "ModuleResult", resultFields), ("summary", "ModuleSummary", summaryFields),
    ("static", "ModuleStatic", resultFields ++ summaryFields)].map fun (name, shape, fields) =>
      (name, shape, normal shape (.obj fields))

def write (ending : String) : Job Unit := do
  let settings ← Job.readMessage "AstLookupConfig" "../../../config/astgen_python_smt.config"
  let count := ((settings.field? "apis").map fun d => d.itemsOf.length).getD 0
  Job.printLine ("loaded config with " ++ Text.ofNat count ++ " apis to check!")
  let file (name suffix : String) : String := "module_" ++ name ++ "_" ++ ending ++ suffix
  for (name, shape, d) in reports do writeBinaryFile shape (file name ".pb") d
  for (name, _) in reports do
    Job.printLine ("saved " ++ name ++ " to " ++ file name ".pb" ++ " in binary format!")
  for (name, shape, d) in reports do Job.writeMessage shape (file name ".txt") d
  for (name, _) in reports do
    Job.printLine ("saved " ++ name ++ " to " ++ file name ".txt" ++ " in text format!")

end Vetting.Message.Sample
