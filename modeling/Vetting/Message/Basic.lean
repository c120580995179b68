import Vetting.Message.Schema

/-!
# Messages as documents

In normal form the fields of a message stand in the order of their numbers, and those that hold their default
value are left out, alternatives apart.
-/

namespace Vetting.Message

variable (shape : String) (f : Field)

def field? (name : String) : Option Field := (fieldsOf shape).find? fun f => f.name == name

def wholeOf : Doc → Int
  | .int n => n
  | .str s =>
    match s.toList with
    | '-' :: ds => -(Text.natOfDigits ds : Int)
    | ds => Text.natOfDigits ds
  | _ => 0

def choiceDoc (enumeration : String) : Doc → Doc
  | .int n =>
    match nameOf? enumeration n with
    | some s => .str s
    | none => .int n
  | d => d

def choiceNumber (enumeration : String) : Doc → Int
  | .str s => (numberOf? enumeration s).getD 0
  | .int n => n
  | _ => 0

/-- Whether a value is the one that a field holds if nothing was put there. -/
def isDefault : Doc → Bool
  | .str s =>
    match f.kind with
    | .text => s.isEmpty
    | .uint64 => s == "0"
    | .choice e => choiceNumber e (.str s) == 0
    | _ => false
  | .int n => n == 0
  | .bool b => !b
  | _ => false

def ordered (fs : List (String × Doc)) : List (String × Doc) :=
  (fieldsOf shape).filterMap fun f => (fs.lookup f.name).map fun v => (f.name, v)

def normalAtom (d : Doc) : Doc :=
  match f.kind with
  | .choice e => choiceDoc e d
  | .uint64 => .str (Text.ofInt (wholeOf d))
  | .int32 => .int (wholeOf d)
  | _ => d

def normalPlain (d : Doc) : Option Doc :=
  let d := normalAtom f d
  if isDefault f d && !f.alternative then none else some d

mutual

def normal (shape : String) : Doc → Doc
  | .obj fs => .obj (ordered shape (normalFields shape fs))
  | _ => .obj []

def normalFields (shape : String) : List (String × Doc) → List (String × Doc)
  | [] => []
  | (k, v) :: fs =>
    let rest := normalFields shape fs
    match field? shape k with
    | none => rest
    | some f => match normalField f v with
      | some v => (k, v) :: rest
      | none => rest

def normalField (f : Field) : Doc → Option Doc
  | .null => none
  | .arr xs =>
    if f.many then (if xs.isEmpty then none else some (.arr (normalItems f xs))) else none
  | .obj fs =>
    match f.kind with
    | .message shape => some (.obj (ordered shape (normalFields shape fs)))
    | _ => normalPlain f (.obj fs)
  | d =>
    match f.kind with
    | .message _ => some (.obj [])
    | _ => normalPlain f d

def normalItems (f : Field) : List Doc → List Doc
  | [] => []
  | d :: ds =>
    (match f.kind with
      | .message shape => normal shape d
      | _ => normalAtom f d) :: normalItems f ds

end

def dropAlternatives (name : String) (fs : List (String × Doc)) : List (String × Doc) :=
  fs.filter fun p => p.1 == name || !((field? shape p.1).any (·.alternative))

mutual

def merge (shape : String) (base : Doc) : Doc → Doc
  | .obj fs => .obj (mergeFields shape base.fieldsOf fs)
  | _ => base

def mergeFields (shape : String) (base : List (String × Doc)) : List (String × Doc) → List (String × Doc)
  | [] => base
  | (k, v) :: fs =>
    let base := match field? shape k with
      | none => base
      | some f => mergeField shape f k base v
    mergeFields shape base fs

def mergeField (shape : String) (f : Field) (k : String) (base : List (String × Doc)) : Doc → List (String × Doc)
  | .arr xs => Table.set base k (.arr (((base.lookup k).map Doc.itemsOf).getD [] ++ xs))
  | .obj fs =>
    match f.kind with
    | .message inner =>
      Table.set base k (.obj (mergeFields inner (((base.lookup k).map Doc.fieldsOf).getD []) fs))
    | _ => base
  | d => Table.set (if f.alternative then dropAlternatives shape k base else base) k d

end

end Vetting.Message
