import Vetting.Fault

/-!
# What a survey is about

A survey of many packages reads traces of some kind and sums up findings of some kind.
-/

namespace Vetting.Survey

/-- The findings that a survey sums up. -/
inductive DataKind where
  | reverseDep
  | author
  | dependency
  | api
  | permission
  | taint
  | compareAst
  | domain
  | ip
  | file
  | process
  | sensitive
  | installWithNetwork
  | correlateInfoApiCompareAst
deriving BEq, DecidableEq, Inhabited

namespace DataKind

def all : List DataKind := [
  .reverseDep, .author, .dependency, .api, .permission, .taint, .compareAst, .domain, .ip, .file,
  .process, .sensitive, .installWithNetwork, .correlateInfoApiCompareAst]

def word : DataKind → String
  | .reverseDep => "reverse_dep"
  | .author => "author"
  | .dependency => "dependency"
  | .api => "api"
  | .permission => "permission"
  | .taint => "taint"
  | .compareAst => "compare_ast"
  | .domain => "domain"
  | .ip => "ip"
  | .file => "file"
  | .process => "process"
  | .sensitive => "sensitive"
  | .installWithNetwork => "install_with_network"
  | .correlateInfoApiCompareAst => "correlate_info_api_compare_ast"

def ofWord? (s : String) : Option DataKind := all.find? fun k => k.word == s

def ofWord (s : String) : Except Fault DataKind :=
  match ofWord? s with
  | some k => .ok k
  | none => .error (.cause .badValue)

end DataKind

/-- The tools that record traces. -/
inductive TraceKind where
  | strace
  | sysdig
  | dtrace
  | ftrace
  | procmon
  | pytrace
deriving BEq, DecidableEq, Inhabited

namespace TraceKind

def all : List TraceKind := [.strace, .sysdig, .dtrace, .ftrace, .procmon, .pytrace]

def word : TraceKind → String
  | .strace => "strace"
  | .sysdig => "sysdig"
  | .dtrace => "dtrace"
  | .ftrace => "ftrace"
  | .procmon => "procmon"
  | .pytrace => "pytrace"

def ofWord? (s : String) : Option TraceKind := all.find? fun k => k.word == s

def ofWord (s : String) : Except Fault TraceKind :=
  match ofWord? s with
  | some k => .ok k
  | none => .error (.cause .badValue)

end TraceKind

/-- The ways to compute the distance of two names. -/
inductive DistanceKind where
  | table
  | row
  | rowBatch
deriving BEq, DecidableEq, Inhabited

namespace DistanceKind

def all : List DistanceKind := [.table, .row, .rowBatch]

def word : DistanceKind → String
  | .table => "py_edit_distance"
  | .row => "c_edit_distance"
  | .rowBatch => "c_edit_distance_batch"

def ofWord? (s : String) : Option DistanceKind := all.find? fun k => k.word == s

def ofWord (s : String) : Except Fault DistanceKind :=
  match ofWord? s with
  | some k => .ok k
  | none => .error (.cause .badValue)

end DistanceKind

end Vetting.Survey
