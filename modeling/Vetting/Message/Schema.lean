import Vetting.Document.Access

/-!
# Shapes of messages

A shape lists the numbered fields of a record. Of the fields marked `alternative`, a message has at most one,
and it is there even if its value is the default one.
-/

/-! ## Values that messages take

A field of a message takes only values of its own type. Whole numbers have to fit into the field.
-/

namespace Vetting.Message

def textValue (d : Doc) : Except Fault String :=
  match d with
  | .str s => .ok s
  | _ => .error (.cause .wrongType)

def wholeValue (d : Doc) : Except Fault Int :=
  match d with
  | .int n => if -2147483648 ≤ n ∧ n ≤ 2147483647 then .ok n else .error (.cause .badValue)
  | .bool b => .ok (if b then 1 else 0)
  | _ => .error (.cause .wrongType)

/-! ## Shapes of messages -/

inductive Kind where
  | text
  | flag
  | int32
  | uint64
  | choice (enumeration : String)
  | message (shape : String)
deriving BEq, DecidableEq, Inhabited

structure Field where
  number : Nat
  name : String
  kind : Kind
  many : Bool := false
  alternative : Bool := false
deriving BEq, DecidableEq, Inhabited

def enumerations : List (String × List (String × Int)) := [
  ("Language", [
    ("UNKNOWN", 0), ("PYTHON", 1), ("JAVASCRIPT", 2), ("RUBY", 3), ("JAVA", 4), ("PHP", 5),
    ("CSHARP", 6), ("CPP", 7), ("GO", 8)]),
  ("Functionality", [
    ("UNCLASSIFIED", 0), ("SOURCE", 1), ("SINK", 2), ("DANGER", 3), ("PROPAGATE", 4)]),
  ("SourceType", [
    ("SOURCE_UNCLASSIFIED", 0), ("SOURCE_ACCOUNT", 1), ("SOURCE_BLUETOOTH", 2),
    ("SOURCE_BROWSER", 3), ("SOURCE_CALENDAR", 4), ("SOURCE_CONTACT", 5),
    ("SOURCE_DATABASE", 6), ("SOURCE_FILE", 7), ("SOURCE_NETWORK", 8), ("SOURCE_NFC", 9),
    ("SOURCE_SETTINGS", 10), ("SOURCE_SYNC", 11), ("SOURCE_UNIQUE_IDENTIFIER", 12),
    ("SOURCE_ENVIRONMENT", 51), ("SOURCE_USER_INPUT", 52), ("SOURCE_OBFUSCATION", 53)]),
  ("SinkType", [
    ("SINK_UNCLASSIFIED", 0), ("SINK_ACCOUNT", 1), ("SINK_AUDIO", 2), ("SINK_BROWSER", 3),
    ("SINK_CALENDAR", 4), ("SINK_CONTACT", 5), ("SINK_FILE", 6), ("SINK_LOG", 7),
    ("SINK_NETWORK", 8), ("SINK_NFC", 9), ("SINK_PHONE_CONNECTION", 10),
    ("SINK_PHONE_STATE", 11), ("SINK_SMS_MMS", 12), ("SINK_SYNC", 13), ("SINK_SYSTEM", 14),
    ("SINK_VOIP", 15), ("SINK_CODE_GENERATION", 51), ("SINK_PROCESS_OPERATION", 52),
    ("SINK_DATABASE", 53)]),
  ("DangerType", [
    ("DANGER_UNCLASSIFIED_DANGER", 0)]),
  ("PropagateType", [
    ("PROPAGATE_UNCLASSIFIED", 0), ("PROPAGATE_ASSIGN", 1), ("PROPAGATE_CALL", 2),
    ("PROPAGATE_SYSCALL", 3), ("PROPAGATE_LIBCALL", 4)]),
  ("NodeType", [
    ("UNKNOWN", 0), ("FUNCTION_DECL", 1), ("VARIABLE_DECL", 2), ("CLASS_DECL", 3),
    ("FUNCTION_DECL_REF_EXPR", 11), ("VARIABLE_DECL_REF_EXPR", 12), ("CLASS_DECL_REF_EXPR", 13),
    ("PY_FUNCTION_DEF", 101), ("JS_ASSIGNMENT_EXPRESSION", 201), ("RB_REGULAR_NODE", 301),
    ("RB_VARIABLE_NODE", 302), ("JAVA_IDENTITY_STMT", 401), ("PHP_EXPR_VARIABLE", 501)]),
  ("ExecutionType", [
    ("INSTALL", 0), ("MAIN", 1), ("EXERCISE", 2), ("TEST", 3)]),
  ("AnalysisType", [
    ("API_USAGE", 0), ("REACHABILITY", 1), ("TAINT_TRACKING", 2), ("SYMBOLIC", 3)])]

namespace Field

abbrev plain (kind : Kind) (name : String) : Field := { number := 0, name, kind }

abbrev text (name : String) : Field := plain .text name

abbrev flag (name : String) : Field := plain .flag name

abbrev whole (name : String) : Field := plain .int32 name

abbrev choice (enumeration name : String) : Field := plain (.choice enumeration) name

abbrev either (enumeration name : String) : Field := { choice enumeration name with alternative := true }

abbrev message (shape name : String) : Field := plain (.message shape) name

abbrev texts (name : String) : Field := { text name with many := true }

abbrev messages (shape name : String) : Field := { message shape name with many := true }

def numbered : Nat → List Field → List Field
  | _, [] => []
  | n, f :: fs => { f with number := n } :: numbered (n + 1) fs

end Field

/-- The shapes, each with its fields in the order of their numbers. -/
def shapes : List (String × List Field) := List.map (fun (name, fs) => (name, Field.numbered 1 fs)) [
  ("ReleaseInfo", [.text "name", .text "timestamp"]),
  ("RepositoryInfo", [.text "url", .text "type"]),
  ("ExecuteInfo", [.text "target", .text "command"]),
  ("PackageInfo", [
    .message "Metadata" "info", .messages "Metadata" "dependencies",
    .messages "Metadata" "dev_dependencies"]),
  ("Metadata", [
    .text "package_name", .text "package_version", .text "email", .text "homepage", .text "license",
    .message "RepositoryInfo" "repository", .messages "ExecuteInfo" "exec_jobs", .texts "authors",
    .texts "contributors", .texts "maintainers", .messages "ReleaseInfo" "releases"]),
  ("FileInfo", [.text "filename", .text "relpath", .text "file", .text "directory"]),
  ("SourceLocation", [.whole "row", .whole "column", .message "FileInfo" "file_info"]),
  ("SourceRange", [.message "SourceLocation" "start", .message "SourceLocation" "end"]),
  ("AstNode", [
    .choice "NodeType" "type", .text "name", .text "full_name", .text "base_type", .text "module",
    .text "value", .text "definition", .messages "AstNode" "arg_nodes", .texts "arguments", .text "source",
    .message "SourceRange" "range", .whole "id", .choice "Functionality" "functionality",
    .either "SourceType" "source_type", .either "SinkType" "sink_type", .either "DangerType" "danger_type",
    .either "PropagateType" "propagate_type", .messages "AstNode" "child_nodes", .flag "instantiatable"]),
  ("AstLookupConfig", [
    .messages "AstNode" "apis", .flag "save_feature", .text "smt_formula", .flag "smt_satisfied",
    .flag "func_only"]),
  ("PkgAstResult", [
    .text "pkg_name", .text "pkg_version", .choice "Language" "language", .text "input_path",
    .message "AstLookupConfig" "config", .messages "AstNode" "api_results",
    .messages "AstNode" "root_nodes"]),
  ("PkgAstResults", [.messages "PkgAstResult" "pkgs", .plain .uint64 "timestamp"]),
  ("ModuleSource", [.message "AstNode" "node", .messages "AstNode" "reachable_sources"]),
  ("ModuleSink", [.message "AstNode" "node", .messages "AstNode" "reachable_sinks"]),
  ("ModuleTaintWrapper", [.message "AstNode" "node", .messages "TaintRule" "rules"]),
  ("TaintPoint", [.whole "id", .texts "access_paths"]),
  ("TaintRule", [.message "TaintPoint" "cause", .messages "TaintPoint" "effects"]),
  ("ModuleFlow", [
    .message "AstNode" "source", .messages "AstNode" "hops", .message "AstNode" "sink",
    .message "FlowInfo" "info"]),
  ("FlowInfo", [.text "name", .text "cwe", .text "type"]),
  ("ModuleDanger", [.message "AstNode" "danger", .messages "AstNode" "slices"]),
  ("ModuleSummary", [
    .message "PackageInfo" "package_info", .messages "ModuleSource" "sources",
    .messages "ModuleSink" "sinks", .messages "ModuleTaintWrapper" "taint_wrappers"]),
  ("ModuleResult", [
    .message "PackageInfo" "package_info", .messages "ModuleFlow" "flows",
    .messages "ModuleDanger" "dangers"]),
  ("ModuleStatic", [
    .message "PackageInfo" "package_info", .messages "ModuleFlow" "flows",
    .messages "ModuleDanger" "dangers", .messages "ModuleSource" "sources", .messages "ModuleSink" "sinks",
    .messages "ModuleTaintWrapper" "taint_wrappers"]),
  ("NetworkActivity", [
    .text "domain", .text "url", .text "ip", .whole "port", .text "protocol", .text "send_content",
    .whole "send_content_size", .text "receive_content", .whole "receive_content_size"]),
  ("FileActivity", [
    .text "filename", .text "filepath", .text "mode", .text "permission", .text "read_content",
    .text "read_content_size", .text "add_content", .whole "add_content_size", .text "remove_content",
    .whole "remove_content_size", .text "modify_content", .whole "modify_content_size"]),
  ("SensitivenActivity", [
    .text "pid", .text "cmdline", .text "exe", .text "cwd", .text "root", .text "ppid", .text "user",
    .text "syscall"]),
  ("ProcessActivity", [
    .text "pid", .text "cmdline", .text "exe", .text "cwd", .text "root", .text "ppid", .text "user",
    .text "permission", .flag "main_process", .messages "NetworkActivity" "network_activities",
    .messages "FileActivity" "file_activities", .messages "ProcessActivity" "child_process_activities",
    .messages "SensitivenActivity" "sensitive_activities"]),
  ("DynamicAnalysis", [
    .choice "AnalysisType" "analysis_type", .choice "ExecutionType" "exe_type", .text "exe_user",
    .text "timestamp", .text "end_timestamp", .message "ProcessActivity" "process_activity"]),
  ("StaticAnalysis", [
    .choice "AnalysisType" "analysis_type", .text "timestamp", .message "ModuleStatic" "code_activity"]),
  ("ConcolicAnalysis", [
    .choice "AnalysisType" "analysis_type", .choice "ExecutionType" "exe_type", .text "exe_user",
    .text "timestamp", .text "end_timestamp", .message "ProcessActivity" "process_activity"]),
  ("AnalysisResult", [
    .message "PackageInfo" "package_info", .messages "DynamicAnalysis" "dynamic_results",
    .messages "StaticAnalysis" "static_results", .messages "ConcolicAnalysis" "concolic_results"])]

def fieldsOf (shape : String) : List Field := (shapes.lookup shape).getD []

variable (enumeration : String)

def valuesOf : List (String × Int) := (enumerations.lookup enumeration).getD []

def numberOf? (name : String) : Option Int := (valuesOf enumeration).lookup name

def nameOf? (n : Int) : Option String :=
  ((valuesOf enumeration).find? fun p => p.2 == n).map Prod.fst

end Vetting.Message
