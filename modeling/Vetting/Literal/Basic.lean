import Vetting.Document.Text
import Vetting.Text.Blank

/-!
# Literals

Numbers, texts, lists, tuples, sets and dictionaries, as tables keep them in a cell, with their text.
-/

namespace Vetting

inductive Literal where
  | none
  | ellipsis
  | bool (b : Bool)
  | int (n : Int)
  | decimal (digits : Int) (exponent : Int)
  | complex
  | text (s : String)
  | bytes (bs : List UInt8)
  | list (items : List Literal)
  | tuple (items : List Literal)
  | set (items : List Literal)
  | dict (entries : List (Literal × Literal))
deriving Inhabited, BEq

namespace Literal

/-! ## Comparing -/

def number? : Literal → Option (Int × Int)
  | .bool b => some (if b then 1 else 0, 0)
  | .int n => some (n, 0)
  | .decimal m e => some (m, e)
  | _ => .none

mutual

/-- Equality of values: numbers by value, sets and dictionaries in any order. -/
def same : Literal → Literal → Bool
  | .none, .none => true
  | .ellipsis, .ellipsis => true
  | .text s, .text t => s == t
  | .bytes s, .bytes t => s == t
  | .list xs, .list ys => sameItems xs ys
  | .tuple xs, .tuple ys => sameItems xs ys
  | .set xs, .set ys => xs.length == ys.length && allIn xs ys
  | .dict xs, .dict ys => xs.length == ys.length && sameEntries xs ys
  | x, y =>
    match x.number?, y.number? with
    | some (m, e), some (n, f) => Doc.sameDecimal m e n f
    | _, _ => false

def sameItems : List Literal → List Literal → Bool
  | [], [] => true
  | x :: xs, y :: ys => same x y && sameItems xs ys
  | _, _ => false

def allIn : List Literal → List Literal → Bool
  | [], _ => true
  | x :: xs, ys => ys.any (fun y => same x y) && allIn xs ys

def sameEntries : List (Literal × Literal) → List (Literal × Literal) → Bool
  | [], _ => true
  | (k, v) :: xs, ys => ys.any (fun p => same k p.1 && same v p.2) && sameEntries xs ys

end

mutual

def isKey : Literal → Bool
  | .list _ => false
  | .set _ => false
  | .dict _ => false
  | .tuple xs => areKeys xs
  | _ => true

def areKeys : List Literal → Bool
  | [] => true
  | x :: xs => isKey x && areKeys xs

end

def isIn (x : Literal) (ys : List Literal) : Bool := ys.any fun y => same x y

def truthy : Literal → Bool
  | .none => false
  | .bool b => b
  | .int n => n != 0
  | .decimal m _ => m != 0
  | .text s => !s.isEmpty
  | .bytes bs => !bs.isEmpty
  | .list xs => !xs.isEmpty
  | .tuple xs => !xs.isEmpty
  | .set xs => !xs.isEmpty
  | .dict xs => !xs.isEmpty
  | _ => true

def setEntry (k v : Literal) : List (Literal × Literal) → List (Literal × Literal)
  | [] => [(k, v)]
  | (k', v') :: es => if same k k' then (k', v) :: es else (k', v') :: setEntry k v es

def keyed? (es : List (Literal × Literal)) (k : Literal) : Option Literal :=
  (es.find? fun p => same p.1 k).map Prod.snd

def byteText (q : Char) (b : UInt8) : List Char :=
  let n := b.toNat
  let c := Char.ofNat n
  if c = q || c = '\\' then ['\\', c]
  else if n = 9 then ['\\', 't']
  else if n = 10 then ['\\', 'n']
  else if n = 13 then ['\\', 'r']
  else if 32 ≤ n && n < 127 then [c]
  else '\\' :: 'x' :: Text.hexDigits 2 n

def bytesText (bs : List UInt8) : String :=
  let q := Text.quoteFor (bs.map fun b => Char.ofNat b.toNat)
  String.ofList ('b' :: q :: bs.flatMap (byteText q) ++ [q])

mutual

def render : Literal → String
  | .none => "None"
  | .ellipsis => "Ellipsis"
  | .bool b => if b then "True" else "False"
  | .int n => Text.ofInt n
  | .decimal m e => Doc.writeDecimal m e
  | .complex => "1j"
  | .text s => Text.quoted s
  | .bytes bs => bytesText bs
  | .list xs => "[" ++ renderItems xs ++ "]"
  | .tuple [x] => "(" ++ render x ++ ",)"
  | .tuple xs => "(" ++ renderItems xs ++ ")"
  | .set [] => "set()"
  | .set xs => "\x7b" ++ renderItems xs ++ "\x7d"
  | .dict es => "\x7b" ++ renderEntries es ++ "\x7d"

def renderItems : List Literal → String
  | [] => ""
  | [x] => render x
  | x :: xs => render x ++ ", " ++ renderItems xs

def renderEntries : List (Literal × Literal) → String
  | [] => ""
  | [(k, v)] => render k ++ ": " ++ render v
  | (k, v) :: es => render k ++ ": " ++ render v ++ ", " ++ renderEntries es

end

def shown : Literal → String
  | .text s => s
  | x => render x

/-! ## Documents -/

mutual

def ofDoc : Doc → Literal
  | .null => .none
  | .bool b => .bool b
  | .int n => .int n
  | .decimal m e => .decimal m e
  | .str s => .text s
  | .arr xs => .list (ofDocs xs)
  | .obj fs => .dict (ofFields fs)

def ofDocs : List Doc → List Literal
  | [] => []
  | d :: ds => ofDoc d :: ofDocs ds

def ofFields : List (String × Doc) → List (Literal × Literal)
  | [] => []
  | (k, v) :: fs => (.text k, ofDoc v) :: ofFields fs

end

mutual

/-- A value as a document: tuples and sets become arrays, keys and bytes texts. -/
def toDoc : Literal → Doc
  | .none => .null
  | .ellipsis => .str "<ellipsis>"
  | .bool b => .bool b
  | .int n => .int n
  | .decimal m e => .decimal m e
  | .complex => .str "<complex>"
  | .text s => .str s
  | .bytes bs => .str (String.ofList (bs.map fun b => Char.ofNat b.toNat))
  | .list xs => .arr (toDocs xs)
  | .tuple xs => .arr (toDocs xs)
  | .set xs => .arr ((toDocs xs).mergeSort fun a b => Text.le a.write b.write)
  | .dict es => Doc.ofPairs (toFields es)

def toDocs : List Literal → List Doc
  | [] => []
  | x :: xs => toDoc x :: toDocs xs

def toFields : List (Literal × Literal) → List (String × Doc)
  | [] => []
  | (k, v) :: es => (shown k, toDoc v) :: toFields es

end

end Literal

namespace Doc

def literal (d : Doc) : String := (Literal.ofDoc d).render

def shown (d : Doc) : String := (Literal.ofDoc d).shown

end Doc

end Vetting
