import Vetting.Message.Basic

/-!
# Nodes: functions, their uses, and where they stand

Settings list the functions that are looked for, reports list the places where they are used.
-/

namespace Vetting.Api

/-- What a node stands for in a program. -/
inductive NodeKind where
  | unknown
  | functionDecl
  | variableDecl
  | classDecl
  | functionRef
  | variableRef
  | classRef
  /-- A kind that nothing here asks about, by its name. -/
  | other (label : String)
deriving BEq, DecidableEq, Inhabited

namespace NodeKind

def label : NodeKind → String
  | .unknown => "UNKNOWN"
  | .functionDecl => "FUNCTION_DECL"
  | .variableDecl => "VARIABLE_DECL"
  | .classDecl => "CLASS_DECL"
  | .functionRef => "FUNCTION_DECL_REF_EXPR"
  | .variableRef => "VARIABLE_DECL_REF_EXPR"
  | .classRef => "CLASS_DECL_REF_EXPR"
  | .other s => s

def ofLabel (s : String) : NodeKind :=
  ([.unknown, .functionDecl, .variableDecl, .classDecl, .functionRef, .variableRef,
    .classRef].find? fun k => label k == s).getD (.other s)

end NodeKind

/-- The part that a function plays in a data flow. -/
inductive Role where
  | unclassified
  | source
  | sink
  | danger
  | propagate
deriving BEq, DecidableEq, Inhabited

namespace Role

def label : Role → String
  | .unclassified => "UNCLASSIFIED"
  | .source => "SOURCE"
  | .sink => "SINK"
  | .danger => "DANGER"
  | .propagate => "PROPAGATE"

def ofLabel (s : String) : Role :=
  ([.source, .sink, .danger, .propagate].find? fun r => label r == s).getD .unclassified

end Role

/-- What kind of source, sink, danger or step a function is, by name. -/
inductive Detail where
  | source (label : String)
  | sink (label : String)
  | danger (label : String)
  | propagate (label : String)
deriving BEq, DecidableEq, Inhabited

/-- Where a file lies. -/
structure FileInfo where
  filename : String := ""
  relpath : String := ""
  file : String := ""
  directory : String := ""
deriving BEq, DecidableEq, Inhabited

structure Place where
  row : Int := 0
  column : Int := 0
  fileInfo : Option FileInfo := none
deriving BEq, DecidableEq, Inhabited

structure Span where
  start : Option Place := none
  finish : Option Place := none
deriving BEq, DecidableEq, Inhabited

/-- A function that is looked for or used. -/
structure Node where
  kind : NodeKind := .unknown
  name : String := ""
  fullName : String := ""
  baseType : String := ""
  module : String := ""
  value : String := ""
  definition : String := ""
  /-- The arguments that matter, as messages. -/
  argNodes : List Doc := []
  arguments : List String := []
  source : String := ""
  range : Option Span := none
  id : Int := 0
  role : Role := .unclassified
  detail : Option Detail := none
  /-- Nodes below this one, as messages. -/
  childNodes : List Doc := []
  instantiatable : Bool := false
deriving Inhabited, BEq

/-! ## Messages -/

variable (k : String) (d : Doc)

def textField (s : String) : List (String × Doc) := if s.isEmpty then [] else [(k, .str s)]

def intField (n : Int) : List (String × Doc) := if n = 0 then [] else [(k, .int n)]

def flagField (b : Bool) : List (String × Doc) := if b then [(k, .bool true)] else []

def listField (ds : List Doc) : List (String × Doc) := if ds.isEmpty then [] else [(k, .arr ds)]

def partField : Option Doc → List (String × Doc)
  | none => []
  | some d => [(k, d)]

def textOf (k : String) : String := ((d.field? k).bind Doc.str?).getD ""

def intOf (k : String) : Int := ((d.field? k).map Message.wholeOf).getD 0

def flagOf (k : String) : Bool := ((d.field? k).map Doc.truthy).getD false

def listOf (k : String) : List Doc := ((d.field? k).map Doc.itemsOf).getD []

namespace FileInfo

def toDoc (f : FileInfo) : Doc :=
  .obj (textField "filename" f.filename ++ textField "relpath" f.relpath ++ textField "file" f.file
    ++ textField "directory" f.directory)

def ofDoc (d : Doc) : FileInfo :=
  { filename := textOf d "filename", relpath := textOf d "relpath", file := textOf d "file"
    directory := textOf d "directory" }

end FileInfo

namespace Place

def toDoc (p : Place) : Doc :=
  .obj (intField "row" p.row ++ intField "column" p.column ++ partField "file_info" (p.fileInfo.map FileInfo.toDoc))

def ofDoc (d : Doc) : Place :=
  { row := intOf d "row", column := intOf d "column"
    fileInfo := (d.field? "file_info").map FileInfo.ofDoc }

end Place

namespace Span

def toDoc (s : Span) : Doc :=
  .obj (partField "start" (s.start.map Place.toDoc) ++ partField "end" (s.finish.map Place.toDoc))

def ofDoc (d : Doc) : Span :=
  { start := (d.field? "start").map Place.ofDoc, finish := (d.field? "end").map Place.ofDoc }

end Span

namespace Detail

def field : Detail → String × Doc
  | .source s => ("source_type", .str s)
  | .sink s => ("sink_type", .str s)
  | .danger s => ("danger_type", .str s)
  | .propagate s => ("propagate_type", .str s)

def ofDoc? (d : Doc) : Option Detail :=
  match d.field? "source_type", d.field? "sink_type", d.field? "danger_type", d.field? "propagate_type" with
  | some (.str s), _, _, _ => some (.source s)
  | _, some (.str s), _, _ => some (.sink s)
  | _, _, some (.str s), _ => some (.danger s)
  | _, _, _, some (.str s) => some (.propagate s)
  | _, _, _, _ => none

end Detail

namespace Node

def toDoc (n : Node) : Doc :=
  .obj ((if n.kind = .unknown then [] else [("type", Doc.str n.kind.label)])
    ++ textField "name" n.name ++ textField "full_name" n.fullName
    ++ textField "base_type" n.baseType ++ textField "module" n.module ++ textField "value" n.value
    ++ textField "definition" n.definition ++ listField "arg_nodes" n.argNodes
    ++ listField "arguments" (n.arguments.map Doc.str) ++ textField "source" n.source
    ++ partField "range" (n.range.map Span.toDoc) ++ intField "id" n.id
    ++ (if n.role = .unclassified then [] else [("functionality", Doc.str n.role.label)])
    ++ (match n.detail with | none => [] | some d => [d.field])
    ++ listField "child_nodes" n.childNodes ++ flagField "instantiatable" n.instantiatable)

def ofDoc (d : Doc) : Node :=
  { kind := match d.field? "type" with
      | some (.str s) => .ofLabel s
      | some (.int n) => .other (Text.ofInt n)
      | _ => .unknown
    name := textOf d "name"
    fullName := textOf d "full_name"
    baseType := textOf d "base_type"
    module := textOf d "module"
    value := textOf d "value"
    definition := textOf d "definition"
    argNodes := listOf d "arg_nodes"
    arguments := (listOf d "arguments").map (·.strD "")
    source := textOf d "source"
    range := (d.field? "range").map Span.ofDoc
    id := intOf d "id"
    role := .ofLabel (textOf d "functionality")
    detail := Detail.ofDoc? d
    childNodes := listOf d "child_nodes"
    instantiatable := flagOf d "instantiatable" }

def partialName (n : Node) : String := if n.fullName = n.name then n.name else "." ++ n.name

end Node

end Vetting.Api
