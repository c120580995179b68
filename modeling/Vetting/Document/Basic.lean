import Vetting.Fault
import Vetting.Table

/-!
# Documents

Null, truth values, numbers, texts, arrays and objects, whose fields keep their order.
-/

namespace Vetting

/-- A document. A decimal number is `digits · 10 ^ exponent`. -/
inductive Doc where
  | null
  | bool (b : Bool)
  | int (n : Int)
  | decimal (digits : Int) (exponent : Int)
  | str (s : String)
  | arr (items : List Doc)
  | obj (fields : List (String × Doc))
deriving Inhabited, BEq

namespace Doc

def sameDecimal (m : Int) (e : Int) (n : Int) (f : Int) : Bool :=
  if e ≤ f then m == n * Int.pow 10 (f - e).toNat else m * Int.pow 10 (e - f).toNat == n

def number? : Doc → Option (Int × Int)
  | .bool b => some (if b then 1 else 0, 0)
  | .int n => some (n, 0)
  | .decimal m e => some (m, e)
  | _ => none

mutual

/-- Equality of documents: numbers by value, fields in any order. -/
def same : Doc → Doc → Bool
  | .null, .null => true
  | .str s, .str t => s == t
  | .arr xs, .arr ys => sameList xs ys
  | .obj fs, .obj gs => fs.length == gs.length && sameFields fs gs
  | x, y =>
    match x.number?, y.number? with
    | some (m, e), some (n, f) => sameDecimal m e n f
    | _, _ => false

def sameList : List Doc → List Doc → Bool
  | [], [] => true
  | x :: xs, y :: ys => same x y && sameList xs ys
  | _, _ => false

def sameFields : List (String × Doc) → List (String × Doc) → Bool
  | [], _ => true
  | (k, v) :: fs, gs =>
    (match gs.lookup k with
      | some w => same v w
      | none => false) && sameFields fs gs

end

def truthy : Doc → Bool
  | .null => false
  | .bool b => b
  | .int n => n != 0
  | .decimal m _ => m != 0
  | .str s => !s.isEmpty
  | .arr xs => !xs.isEmpty
  | .obj fs => !fs.isEmpty

def field? (d : Doc) (k : String) : Option Doc :=
  match d with
  | .obj fs => fs.lookup k
  | _ => none

def fieldsOf : Doc → List (String × Doc)
  | .obj fs => fs
  | _ => []

def itemsOf : Doc → List Doc
  | .arr xs => xs
  | _ => []

def str? : Doc → Option String
  | .str s => some s
  | _ => none

def strD (d : Doc) (default : String) : String := d.str?.getD default

def int? : Doc → Option Int
  | .int n => some n
  | _ => none

def ofStr? : Option String → Doc
  | none => .null
  | some s => .str s

def setField (d : Doc) (k : String) (v : Doc) : Doc :=
  match d with
  | .obj fs => .obj (Table.set fs k v)
  | d => d

def ofPairs (ps : List (String × Doc)) : Doc := .obj (Table.ofPairs ps)

end Doc

end Vetting
