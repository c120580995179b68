import Vetting.Text.Basic
import Vetting.Text.Classes

/-!
# Blanks and line ends

Blanks are the separators, the spaces and the bidirectional types `B`, `S` and `WS` of Unicode. Lines end at
a line feed, a carriage return or both together, and at eight other characters.
-/

namespace Vetting.Text

open String

def blankTable : Array (Nat × Nat) := #[
  (9, 13), (28, 32), (133, 133), (160, 160), (5760, 5760), (8192, 8202), (8232, 8233),
   (8239, 8239), (8287, 8287), (12288, 12288)]

def isBlank (c : Char) : Bool := inRanges blankTable c

variable (s : String)

def strip : String := ofList (stripChars isBlank s.toList)

def rstrip : String := ofList (stripEnd isBlank s.toList)

def wordsGo : List Char → List Char → List (List Char)
  | acc, [] => if acc.isEmpty then [] else [acc.reverse]
  | acc, c :: cs =>
    if isBlank c then (if acc.isEmpty then wordsGo [] cs else acc.reverse :: wordsGo [] cs)
    else wordsGo (c :: acc) cs

def words : List String := (wordsGo [] s.toList).map ofList

def isLineEnd (c : Char) : Bool :=
  let n := c.toNat
  (10 ≤ n && n ≤ 13) || (28 ≤ n && n ≤ 30) || n = 133 || n = 8232 || n = 8233

/-- The lines of a text, each with its line end; a carriage return takes a line feed with it. -/
def linesGo : List Char → List Char → List (List Char)
  | acc, [] => if acc.isEmpty then [] else [acc.reverse]
  | acc, '\r' :: '\n' :: cs => ('\n' :: '\r' :: acc).reverse :: linesGo [] cs
  | acc, c :: cs => if isLineEnd c then (c :: acc).reverse :: linesGo [] cs else linesGo (c :: acc) cs

def linesWithEnds : List String := (linesGo [] s.toList).map ofList

def lines : List String :=
  (linesGo [] s.toList).map fun l => ofList (stripEnd isLineEnd l)

def feedLinesGo : List Char → List Char → List (List Char)
  | acc, [] => if acc.isEmpty then [] else [acc.reverse]
  | acc, c :: cs => if c = '\n' then (c :: acc).reverse :: feedLinesGo [] cs else feedLinesGo (c :: acc) cs

def feedLines : List String := (feedLinesGo [] s.toList).map ofList

def unifyLineEnds : List Char → List Char
  | [] => []
  | '\r' :: '\n' :: cs => '\n' :: unifyLineEnds cs
  | '\r' :: cs => '\n' :: unifyLineEnds cs
  | c :: cs => c :: unifyLineEnds cs

/-! ## Quoted texts

A text is shown between single quotes, or between double quotes if it has a single quote and no
double quote. Characters that are not printable are shown by their code.
-/

def hexChar (n : Nat) : Char := Char.ofNat (if n < 10 then 48 + n else 87 + n)

def hexDigits : Nat → Nat → List Char
  | 0, _ => []
  | k + 1, n => hexDigits k (n / 16) ++ [hexChar (n % 16)]

def quoteFor (cs : List Char) : Char := if cs.contains '\'' && !cs.contains '"' then '"' else '\''

def quotedChar (q c : Char) : List Char :=
  if c = q || c = '\\' then ['\\', c]
  else if c = '\n' then ['\\', 'n']
  else if c = '\r' then ['\\', 'r']
  else if c = '\t' then ['\\', 't']
  else if isPrintable c then [c]
  else if c.toNat < 0x100 then '\\' :: 'x' :: hexDigits 2 c.toNat
  else if c.toNat < 0x10000 then '\\' :: 'u' :: hexDigits 4 c.toNat
  else '\\' :: 'U' :: hexDigits 8 c.toNat

def quotedChars (cs : List Char) : List Char :=
  let q := quoteFor cs
  q :: cs.flatMap (quotedChar q) ++ [q]

def quoted : String := ofList (quotedChars s.toList)

/-! ## Bytes that may be no text

Bytes are read as a text; where they are none, each longest start of a character stands for one mark.
-/

def replacement : Char := Char.ofNat 0xFFFD

/-- How many bytes follow the first one, and between which the next one lies. -/
def leadByte (b : UInt8) : Option (Nat × UInt8 × UInt8) :=
  if 0xC2 ≤ b && b ≤ 0xDF then some (1, 0x80, 0xBF)
  else if b = 0xE0 then some (2, 0xA0, 0xBF)
  else if b = 0xED then some (2, 0x80, 0x9F)
  else if 0xE1 ≤ b && b ≤ 0xEF then some (2, 0x80, 0xBF)
  else if b = 0xF0 then some (3, 0x90, 0xBF)
  else if 0xF1 ≤ b && b ≤ 0xF3 then some (3, 0x80, 0xBF)
  else if b = 0xF4 then some (3, 0x80, 0x8F)
  else none

def leadValue (n : Nat) (b : UInt8) : Nat :=
  if n = 1 then b.toNat % 32 else if n = 2 then b.toNat % 16 else b.toNat % 8

/-- Reads bytes as a text, with what an open character lacks and the bounds of the next byte. -/
def lossyGo : Option (Nat × Nat × UInt8 × UInt8) → List UInt8 → List Char
  | none, [] => []
  | some _, [] => [replacement]
  | none, b :: bs =>
    if b < 0x80 then Char.ofNat b.toNat :: lossyGo none bs
    else match leadByte b with
      | some (n, lo, hi) => lossyGo (some (leadValue n b, n, lo, hi)) bs
      | none => replacement :: lossyGo none bs
  | some (value, n, lo, hi), b :: bs =>
    if lo ≤ b && b ≤ hi then
      let value := value * 64 + b.toNat % 64
      if n ≤ 1 then Char.ofNat value :: lossyGo none bs else lossyGo (some (value, n - 1, 0x80, 0xBF)) bs
    else if b < 0x80 then replacement :: Char.ofNat b.toNat :: lossyGo none bs
    else match leadByte b with
      | some (n, lo, hi) => replacement :: lossyGo (some (leadValue n b, n, lo, hi)) bs
      | none => replacement :: replacement :: lossyGo none bs

def lossy (bs : List UInt8) : String := ofList (lossyGo none bs)

end Vetting.Text
