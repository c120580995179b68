/-!
# Cutting and joining texts

The operations work on `List Char`, where they can be reasoned about; each has a twin on `String`.
-/

namespace Vetting.Text

open String

/-- Cuts at every occurrence of a separator. The number counts the characters of it that still have to be passed
over. -/
def splitGo (sep : List Char) : Nat → List Char → List Char → List (List Char)
  | _, acc, [] => [acc.reverse]
  | k + 1, acc, _ :: cs => splitGo sep k acc cs
  | 0, acc, c :: cs =>
    if sep.isPrefixOf (c :: cs) then acc.reverse :: splitGo sep (sep.length - 1) [] cs
    else splitGo sep 0 (c :: acc) cs

def splitChars (sep cs : List Char) : List (List Char) := splitGo sep 0 [] cs

/-- Cuts at the first `limit` occurrences of a separator only. -/
def splitGoMax (sep : List Char) : Nat → Nat → List Char → List Char → List (List Char)
  | _, _, acc, [] => [acc.reverse]
  | limit, k + 1, acc, _ :: cs => splitGoMax sep limit k acc cs
  | 0, 0, acc, cs => [acc.reverse ++ cs]
  | limit + 1, 0, acc, c :: cs =>
    if sep.isPrefixOf (c :: cs) then acc.reverse :: splitGoMax sep limit (sep.length - 1) [] cs
    else splitGoMax sep (limit + 1) 0 (c :: acc) cs

variable (s : String) (p : Char → Bool) (c : Char) (chars : String)

def splitOn (sep : String) : List String :=
  (splitChars sep.toList s.toList).map ofList

def splitOnMax (sep : String) (limit : Nat) : List String :=
  (splitGoMax sep.toList limit 0 [] s.toList).map ofList

def join (sep : String) : List String → String
  | [] => ""
  | [s] => s
  | s :: t :: rest => s ++ sep ++ join sep (t :: rest)

def replaceChars (old new cs : List Char) : List Char := new.intercalate (splitChars old cs)

def replace (old new : String) : String :=
  ofList (replaceChars old.toList new.toList s.toList)

/-! ## Searching -/

def occursIn (sub : List Char) : List Char → Bool
  | [] => sub.isEmpty
  | c :: cs => sub.isPrefixOf (c :: cs) || occursIn sub cs

def contains (sub : String) : Bool := occursIn sub.toList s.toList

def findChars (sub : List Char) : List Char → Option Nat
  | [] => if sub.isEmpty then some 0 else none
  | c :: cs => if sub.isPrefixOf (c :: cs) then some 0 else (findChars sub cs).map (· + 1)

def startsWith (p : String) : Bool := p.toList.isPrefixOf s.toList

def endsWith (p : String) : Bool := p.toList.isSuffixOf s.toList

def endsWithAny (ps : List String) : Bool := ps.any (endsWith s)

def startsWithAny (ps : List String) : Bool := ps.any (startsWith s)

def cutLast (cs : List Char) : Option (List Char × List Char) :=
  let tail := cs.reverse.takeWhile (· != c)
  match cs.reverse.drop tail.length with
  | [] => none
  | _ :: head => some (head.reverse, tail.reverse)

def cutFirst (cs : List Char) : Option (List Char × List Char) :=
  match cs.dropWhile (· != c) with
  | [] => none
  | _ :: rest => some (cs.takeWhile (· != c), rest)

/-! ## The ends of a text -/

def stripStart (cs : List Char) : List Char := cs.dropWhile p

def stripEnd (cs : List Char) : List Char := (cs.reverse.dropWhile p).reverse

def stripChars (cs : List Char) : List Char := stripEnd p (stripStart p cs)

def stripOf : String :=
  ofList (stripChars (fun c => chars.toList.contains c) s.toList)

def rstripOf : String :=
  ofList (stripEnd (fun c => chars.toList.contains c) s.toList)

def lstripOf : String :=
  ofList (stripStart (fun c => chars.toList.contains c) s.toList)

def lt (t : String) : Bool := s.toList.map Char.toNat < t.toList.map Char.toNat

def le (t : String) : Bool := !lt t s

def sort (ss : List String) : List String := ss.mergeSort le

def ofNat (n : Nat) : String := ofList (Nat.toDigits 10 n)

def ofInt : Int → String
  | .ofNat n => ofNat n
  | .negSucc n => "-" ++ ofNat (n + 1)

def natOfDigits (cs : List Char) : Nat := cs.foldl (fun n c => n * 10 + (c.toNat - 48)) 0

def padLeft (width : Nat) (s : String) : String :=
  ofList (List.replicate (width - s.length) c) ++ s

end Vetting.Text
