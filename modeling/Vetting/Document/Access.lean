import Vetting.Literal.Basic

/-!
# Looking into documents

Every access says what it needs and fails with a cause if the document does not have it.
-/

namespace Vetting.Doc

def wrongType {α : Type} : Except Fault α := .error (.cause .wrongType)

def noMember {α : Type} : Except Fault α := .error (.cause .noMember)

def missing (k : String) : Fault := .missingKey (Text.quoted k)

variable (d : Doc)

def «at» (k : String) : Except Fault Doc :=
  match d with
  | .obj fs =>
    match fs.lookup k with
    | some v => .ok v
    | none => .error (missing k)
  | _ => wrongType

/-- The item at a place, counted from the end if it is negative. -/
def atPlace (i : Int) : Except Fault Doc :=
  let place (n : Nat) : Option Nat :=
    if 0 ≤ i then (if i < n then some i.toNat else none)
    else if 0 ≤ i + n then some (i + n).toNat else none
  match d with
  | .arr xs =>
    match (place xs.length).bind fun k => xs[k]? with
    | some x => .ok x
    | none => .error (.cause .outOfRange)
  | .str s =>
    match (place s.length).bind fun k => s.toList[k]? with
    | some c => .ok (.str (String.ofList [c]))
    | none => .error (.cause .outOfRange)
  | .obj _ => .error (.missingKey (Text.ofInt i))
  | _ => wrongType

def findD (k : String) (default : Doc) : Except Fault Doc :=
  match d with
  | .obj fs => .ok ((fs.lookup k).getD default)
  | _ => noMember

def find (k : String) : Except Fault Doc := d.findD k .null

def has (k : String) : Except Fault Bool :=
  match d with
  | .obj fs => .ok (fs.any fun p => p.1 == k)
  | .arr xs => .ok (xs.any fun x => same x (.str k))
  | .str s => .ok (Text.contains s k)
  | _ => wrongType

def items : Except Fault (List Doc) :=
  match d with
  | .arr xs => .ok xs
  | .obj fs => .ok (fs.map fun p => .str p.1)
  | .str s => .ok (s.toList.map fun c => .str (String.ofList [c]))
  | _ => wrongType

def size : Except Fault Nat := d.items.map List.length

def entries : Except Fault (List (String × Doc)) :=
  match d with
  | .obj fs => .ok fs
  | _ => noMember

def keys : Except Fault (List String) := d.entries.map fun fs => fs.map Prod.fst

def values : Except Fault (List Doc) := d.entries.map fun fs => fs.map Prod.snd

def text : Except Fault String :=
  match d with
  | .str s => .ok s
  | _ => noMember

def asText : Except Fault String :=
  match d with
  | .str s => .ok s
  | _ => wrongType

def isKey : Doc → Bool
  | .arr _ => false
  | .obj _ => false
  | _ => true

def asKey : Except Fault Doc := if d.isKey then .ok d else wrongType

def isArr : Doc → Bool
  | .arr _ => true
  | _ => false

def isStr : Doc → Bool
  | .str _ => true
  | _ => false

def isNull : Doc → Bool
  | .null => true
  | _ => false

end Vetting.Doc
