import Vetting.Host.Files

/-!
# Groups of functions

A sheet has a column for each group of functions: where data comes from, where it goes to, both at once, and
what is dangerous in itself. Settings number the functions.
-/

/-! ## Texts written piece by piece

A text is written as its pieces are made. A piece that cannot be made ends the writing, and what was
written before stays.
-/

namespace Vetting.Listing

/-- Why the writing ends early: what is printed first, and the fault. -/
structure Halt where
  printed : String := ""
  fault : Fault
deriving Inhabited

def Halt.of (f : Fault) : Halt := { fault := f }

def Halt.ofCause (c : Cause) : Halt := { fault := .cause c }

abbrev Piece := Except Halt String

def textOf : List Piece → String
  | .ok s :: ps => s ++ textOf ps
  | _ => ""

def haltOf : List Piece → Option Halt
  | [] => none
  | .error h :: _ => some h
  | .ok _ :: ps => haltOf ps

def stopFor {α : Type} (h : Halt) : Job α := do
  Job.print h.printed
  Job.stop h.fault

def writePieces (path : String) (ps : List Piece) : Job Unit := do
  Job.writeText path (textOf ps)
  match haltOf ps with
  | some h => stopFor h
  | none => return

def required {α : Type} : Except Halt α → Job α
  | .ok a => return a
  | .error h => stopFor h

/-! ## Groups of functions -/

inductive Group where
  | sources
  | sinks
  | sourceSinks
  | dangers
deriving BEq, DecidableEq, Inhabited

namespace Group

def column : Group → String
  | .sources => "Sources"
  | .sinks => "Sinks"
  | .sourceSinks => "SourceSinks"
  | .dangers => "Dangers"

def typeColumn : Group → String
  | .sources => "SourceType"
  | .sinks => "SinkType"
  | .sourceSinks => "SourceSinkType"
  | .dangers => "DangerType"

def functionality : Group → String
  | .sources => "SOURCE"
  | .sinks => "SINK"
  | .sourceSinks => "SOURCE"
  | .dangers => "DANGER"

def typeField : Group → String
  | .sources => "source_type"
  | .sinks => "sink_type"
  | .sourceSinks => "source_type"
  | .dangers => "sink_type"

end Group

/-- A function by its name and its base, with the numbers of the arguments that matter. -/
structure Named where
  base : Option String := none
  name : String
  fullName : String
  arguments : List String := []
deriving BEq, DecidableEq, Inhabited

/-- A function in a sheet: its column, the line that it stands in, and its name. -/
structure Listed where
  column : String
  cells : Table String (Option String)
  named : Named
deriving BEq, DecidableEq, Inhabited

/-- The form of a sheet: its groups, and how a function is written. -/
structure Form where
  groups : List Group
  read : String → Except Halt Named

variable (f : Form) (column : String)

def Form.group? : Option Group := f.groups.find? fun g => g.column = column

def Form.isListed : Bool :=
  !column.isEmpty && !(f.groups.map Group.typeColumn).contains column

def Form.cell? (line : Sheet.Line) : Option (Except Halt Listed) :=
  match (line.cells.get? column).join with
  | none => some (.error (.ofCause .noMember))
  | some text =>
    let text := Text.strip text
    if text.isEmpty then none
    else some ((f.read text).map fun named => { column, cells := line.cells, named })

def Form.functions (s : Sheet) : List (Except Halt Listed) :=
  match s.header with
  | none => [.error (.ofCause .wrongType)]
  | some header => (header.filter f.isListed).flatMap fun c => s.rows.filterMap (f.cell? c)

def unexpectedColumn : Halt := .of (.failure ("Unexpected field name: " ++ column))

/-! ### Settings -/

def headText (name fullName : String) : String :=
  "apis \x7b\n\ttype: FUNCTION_DECL_REF_EXPR\n\tname: \"" ++ name ++ "\"\n\tfull_name: \"" ++ fullName ++ "\"\n"

def baseText (base : String) : String := "\tbase_type: \"" ++ base ++ "\"\n"

def idText (id : Nat) : String := "\tid: " ++ Text.ofNat id ++ "\n"

def endText : String := "\x7d\n"

def argumentPieces (a : String) : List Piece :=
  [.ok "\targ_nodes \x7b\n",
   match Text.intOf? a with
   | some n => .ok ("\t\tid: " ++ Text.ofInt n ++ "\n\t\x7d\n")
   | none => .error (.ofCause .badValue)]

def typePiece (g : Group) (cells : Table String (Option String)) : Piece :=
  match cells.get? g.typeColumn with
  | none => .error (.of (.missingKey (Text.quoted g.typeColumn)))
  | some none => .error (.ofCause .noMember)
  | some (some t) => .ok ("\t" ++ g.typeField ++ ": " ++ Text.strip t ++ "\n")

def groupPieces (l : Listed) : List Piece :=
  match f.group? l.column with
  | some g => [.ok ("\tfunctionality: " ++ g.functionality ++ "\n"), typePiece g l.cells]
  | none => [.error (unexpectedColumn l.column)]

def functionPieces (l : Listed) (id : Nat) : List Piece :=
  [.ok (headText l.named.name l.named.fullName)]
  ++ (match l.named.base with
      | some b => if b.isEmpty then [] else [.ok (baseText b)]
      | none => [])
  ++ l.named.arguments.flatMap argumentPieces
  ++ [.ok (idText id)] ++ groupPieces f l ++ [.ok endText]

def alternatives (ids : List Nat) : String := Text.join " | " (ids.map Text.ofNat)

def idsOf (ls : List (Except Halt Listed × Nat)) : List Nat :=
  ls.filterMap fun (l, id) =>
    match l with
    | .ok l => if l.column = column then some id else none
    | .error _ => none

/-- The formula: a source together with a sink, or one of any other group. -/
def formula (first second : List Nat) (others : List (List Nat)) : String :=
  "smt_formula: \"" ++ Text.join " | "
    (("((" ++ alternatives first ++ ") & (" ++ alternatives second ++ "))") ::
      others.map fun ids => "(" ++ alternatives ids ++ ")") ++ "\""

def Form.settings (s : Sheet) (ending : String := "") : List Piece :=
  let functions := (f.functions s).zipIdx 1
  let ids (g : Group) := idsOf g.column functions
  let others := f.groups.filter fun g => g != .sources && g != .sinks
  functions.flatMap (fun (l, id) =>
    match l with
    | .ok l => functionPieces f l id
    | .error h => [.error h])
  ++ [.ok (formula (ids .sources) (ids .sinks) (others.map ids) ++ ending)]

def Form.writeSettings (target : String) (ending : String := "") : Job Unit := do
  let s := Sheet.ofText (← Job.readText "sensitive_apis.csv")
  writePieces target (f.settings s ending)

end Vetting.Listing
