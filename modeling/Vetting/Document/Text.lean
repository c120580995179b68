import Vetting.Document.Basic
import Vetting.Text.Basic

/-!
# Reading documents

The grammar is JSON with the words `NaN`, `Infinity` and `-Infinity`, read as null. A field that comes twice
keeps its first place and its last value. Reading is by recursion on a bound for the number of steps.
-/

namespace Vetting.Doc

open String

variable (c : Char) (cs : List Char) (n : Nat)

def isGap : Bool := c = ' ' || c = '\t' || c = '\n' || c = '\r'

def skipGap : List Char := cs.dropWhile isGap

def hexValue? : Option Nat :=
  if '0' ≤ c && c ≤ '9' then some (c.toNat - 48)
  else if 'a' ≤ c && c ≤ 'f' then some (c.toNat - 87)
  else if 'A' ≤ c && c ≤ 'F' then some (c.toNat - 55)
  else none

def hexFour? (a b c d : Char) : Option Nat := do
  let a ← hexValue? a
  let b ← hexValue? b
  let c ← hexValue? c
  let d ← hexValue? d
  return ((a * 16 + b) * 16 + c) * 16 + d

def charOf : Char := if n.isValidChar then Char.ofNat n else Char.ofNat 0xFFFD

def readText : List Char → List Char → Option (List Char × List Char)
  | _, [] => none
  | acc, '"' :: cs => some (acc.reverse, cs)
  | acc, '\\' :: 'u' :: a :: b :: c :: d :: '\\' :: 'u' :: e :: f :: g :: h :: cs =>
    match hexFour? a b c d, hexFour? e f g h with
    | some m, some n =>
      if 0xD800 ≤ m && m < 0xDC00 && 0xDC00 ≤ n && n < 0xE000 then
        readText (charOf (0x10000 + (m - 0xD800) * 0x400 + (n - 0xDC00)) :: acc) cs
      else readText (charOf m :: acc) ('\\' :: 'u' :: e :: f :: g :: h :: cs)
    | some m, none => readText (charOf m :: acc) ('\\' :: 'u' :: e :: f :: g :: h :: cs)
    | none, _ => none
  | acc, '\\' :: 'u' :: a :: b :: c :: d :: cs =>
    match hexFour? a b c d with
    | some m => readText (charOf m :: acc) cs
    | none => none
  | acc, '\\' :: c :: cs =>
    match c with
    | '"' => readText ('"' :: acc) cs
    | '\\' => readText ('\\' :: acc) cs
    | '/' => readText ('/' :: acc) cs
    | 'b' => readText ('\x08' :: acc) cs
    | 'f' => readText ('\x0c' :: acc) cs
    | 'n' => readText ('\n' :: acc) cs
    | 'r' => readText ('\r' :: acc) cs
    | 't' => readText ('\t' :: acc) cs
    | _ => none
  | acc, c :: cs => if c.toNat < 32 then none else readText (c :: acc) cs
termination_by _ cs => cs.length

def isDigit : Bool := '0' ≤ c && c ≤ '9'

def natOf (ds : List Char) : Nat := ds.foldl (fun n c => n * 10 + (c.toNat - 48)) 0

def readFraction : List Char × List Char :=
  match cs with
  | '.' :: d :: rest =>
    if isDigit d then ((d :: rest).takeWhile isDigit, (d :: rest).dropWhile isDigit) else ([], cs)
  | _ => ([], cs)

def readExponent : Option Int × List Char :=
  let digits (sign : Int) (ds : List Char) : Option Int × List Char :=
    if ds.head?.any isDigit then (some (sign * natOf (ds.takeWhile isDigit)), ds.dropWhile isDigit)
    else (none, cs)
  match cs with
  | e :: rest =>
    if e = 'e' || e = 'E' then
      match rest with
      | '-' :: ds => digits (-1) ds
      | '+' :: ds => digits 1 ds
      | ds => digits 1 ds
    else (none, cs)
  | [] => (none, cs)

/-- Reads a number. A number with a fraction or an exponent is a decimal. -/
def readNumber : Option (Doc × List Char) :=
  let (negative, cs) := match cs with
    | '-' :: rest => (true, rest)
    | cs => (false, cs)
  let sign : Int := if negative then -1 else 1
  let whole? : Option (List Char × List Char) := match cs with
    | '0' :: rest => some (['0'], rest)
    | c :: _ => if isDigit c then some (cs.takeWhile isDigit, cs.dropWhile isDigit) else none
    | [] => none
  match whole? with
  | none => none
  | some (whole, rest) =>
    let (fraction, rest) := readFraction rest
    let (exponent?, rest) := readExponent rest
    if fraction.isEmpty && exponent?.isNone then some (.int (sign * natOf whole), rest)
    else some (.decimal (sign * natOf (whole ++ fraction)) (exponent?.getD 0 - fraction.length), rest)

def afterWord (w : List Char) (cs : List Char) : Option (List Char) :=
  if w.isPrefixOf cs then some (cs.drop w.length) else none

def readWord : Option (Doc × List Char) :=
  match afterWord "null".toList cs with
  | some rest => some (.null, rest)
  | none => match afterWord "true".toList cs with
    | some rest => some (.bool true, rest)
    | none => match afterWord "false".toList cs with
      | some rest => some (.bool false, rest)
      | none => match afterWord "NaN".toList cs with
        | some rest => some (.null, rest)
        | none => match afterWord "Infinity".toList cs with
          | some rest => some (.null, rest)
          | none => match afterWord "-Infinity".toList cs with
            | some rest => some (.null, rest)
            | none => readNumber cs

mutual

def readValue : Nat → List Char → Option (Doc × List Char)
  | 0, _ => none
  | fuel + 1, cs =>
    match cs with
    | '"' :: rest => (readText [] rest).map fun (s, rest) => (.str (ofList s), rest)
    | '[' :: rest =>
      match skipGap rest with
      | ']' :: rest => some (.arr [], rest)
      | rest => (readItems fuel [] rest).map fun (xs, rest) => (.arr xs, rest)
    | '{' :: rest =>
      match skipGap rest with
      | '}' :: rest => some (.obj [], rest)
      | rest => (readFields fuel [] rest).map fun (fs, rest) => (.obj fs, rest)
    | cs => readWord cs

def readItems : Nat → List Doc → List Char → Option (List Doc × List Char)
  | 0, _, _ => none
  | fuel + 1, acc, cs =>
    match readValue fuel cs with
    | none => none
    | some (x, rest) =>
      match skipGap rest with
      | ']' :: rest => some ((x :: acc).reverse, rest)
      | ',' :: rest => readItems fuel (x :: acc) (skipGap rest)
      | _ => none

def readFields : Nat → List (String × Doc) → List Char → Option (List (String × Doc) × List Char)
  | 0, _, _ => none
  | fuel + 1, acc, cs =>
    match cs with
    | '"' :: rest =>
      match readText [] rest with
      | none => none
      | some (k, rest) =>
        match skipGap rest with
        | ':' :: rest =>
          match readValue fuel (skipGap rest) with
          | none => none
          | some (v, rest) =>
            let k := ofList k
            let acc := if acc.any (fun p => p.1 == k) then (Table.set acc.reverse k v).reverse
              else (k, v) :: acc
            match skipGap rest with
            | '}' :: rest => some (acc.reverse, rest)
            | ',' :: rest => readFields fuel acc (skipGap rest)
            | _ => none
        | _ => none
    | _ => none

end

def parseChars : Option Doc :=
  match readValue (cs.length + 1) (skipGap cs) with
  | some (d, rest) => if (skipGap rest).isEmpty then some d else none
  | none => none

def parse? (s : String) : Option Doc := parseChars s.toList

/-! ## Writing documents

Two layouts: on one line, with a blank after each comma and colon, and indented, one item a line.
Every character outside ASCII is written by its UTF-16 units.
-/

def hexDigit : Char := Char.ofNat (if n < 10 then 48 + n else 87 + n)

def unitEscape : List Char :=
  ['\\', 'u', hexDigit (n / 4096 % 16), hexDigit (n / 256 % 16), hexDigit (n / 16 % 16), hexDigit (n % 16)]

def writeChar : List Char :=
  if c = '"' then ['\\', '"']
  else if c = '\\' then ['\\', '\\']
  else if c = '\n' then ['\\', 'n']
  else if c = '\r' then ['\\', 'r']
  else if c = '\t' then ['\\', 't']
  else if c.toNat = 8 then ['\\', 'b']
  else if c.toNat = 12 then ['\\', 'f']
  else if 32 ≤ c.toNat && c.toNat < 127 then [c]
  else if c.toNat < 0x10000 then unitEscape c.toNat
  else
    let n := c.toNat - 0x10000
    unitEscape (0xD800 + n / 0x400) ++ unitEscape (0xDC00 + n % 0x400)

def writeText (s : String) : String :=
  ofList ('"' :: s.toList.flatMap writeChar ++ ['"'])

def writeDecimal (m e : Int) : String :=
  if 0 ≤ e then Text.ofInt (m * Int.pow 10 e.toNat) ++ ".0"
  else
    let k := (-e).toNat
    let ds := Text.padLeft '0' (k + 1) (Text.ofNat m.natAbs)
    let whole := ofList (ds.toList.take (ds.length - k))
    let fraction := ofList (Text.stripEnd (· = '0') (ds.toList.drop (ds.length - k)))
    (if m < 0 then "-" else "") ++ whole ++ "." ++ (if fraction.isEmpty then "0" else fraction)

def writeAtom : Doc → String
  | .null => "null"
  | .bool b => if b then "true" else "false"
  | .int n => Text.ofInt n
  | .decimal m e => writeDecimal m e
  | .str s => writeText s
  | .arr _ => "[]"
  | .obj _ => "\x7b\x7d"

def newLine (step depth : Nat) : String := "\n" ++ ofList (List.replicate (step * depth) ' ')

mutual

def write : Doc → String
  | .arr (x :: xs) => "[" ++ write x ++ writeRest xs ++ "]"
  | .obj ((k, v) :: fs) => "\x7b" ++ writeText k ++ ": " ++ write v ++ writeRestFields fs ++ "\x7d"
  | d => writeAtom d

def writeRest : List Doc → String
  | [] => ""
  | x :: xs => ", " ++ write x ++ writeRest xs

def writeRestFields : List (String × Doc) → String
  | [] => ""
  | (k, v) :: fs => ", " ++ writeText k ++ ": " ++ write v ++ writeRestFields fs

end

mutual

/-- A document with every item on a line, indented by `step` blanks a level. -/
def writeIndented (step : Nat) : Nat → Doc → String
  | depth, .arr (x :: xs) =>
    "[" ++ newLine step (depth + 1) ++ writeIndented step (depth + 1) x
      ++ indentRest step (depth + 1) xs ++ newLine step depth ++ "]"
  | depth, .obj ((k, v) :: fs) =>
    "\x7b" ++ newLine step (depth + 1) ++ writeText k ++ ": " ++ writeIndented step (depth + 1) v
      ++ indentRestFields step (depth + 1) fs ++ newLine step depth ++ "\x7d"
  | _, d => writeAtom d

def indentRest (step : Nat) : Nat → List Doc → String
  | _, [] => ""
  | depth, x :: xs =>
    "," ++ newLine step depth ++ writeIndented step depth x ++ indentRest step depth xs

def indentRestFields (step : Nat) : Nat → List (String × Doc) → String
  | _, [] => ""
  | depth, (k, v) :: fs =>
    "," ++ newLine step depth ++ writeText k ++ ": " ++ writeIndented step depth v ++ indentRestFields step depth fs

end

def pretty (d : Doc) : String := writeIndented 2 0 d

end Vetting.Doc
