import Vetting.Text.Blank

/-!
# Digits and whole numbers

The characters with a digit value, and the decimal digits, which come in runs of ten.
-/

namespace Vetting.Text

/-- The ranges of the decimal digits, by the zeros that they start with. -/
def decimalTable : Array (Nat × Nat) := (List.map (fun n => (n, n + 9)) [
  48, 1632, 1776, 1984, 2406, 2534, 2662, 2790, 2918, 3046, 3174, 3302, 3430, 3558, 3664, 3792,
  3872, 4160, 4240, 6112, 6160, 6470, 6608, 6784, 6800, 6992, 7088, 7232, 7248, 42528, 43216,
  43264, 43472, 43504, 43600, 44016, 65296, 66720, 68912, 69734, 69872, 69942, 70096, 70384,
  70736, 70864, 71248, 71360, 71472, 71904, 72016, 72784, 73040, 73120, 92768, 92864, 93008,
  120782, 120792, 120802, 120812, 120822, 123200, 123632, 125264, 130032]).toArray

/-- The ranges of the characters that have a digit value and are no decimal digits. -/
def otherDigitTable : Array (Nat × Nat) := #[
  (178, 179), (185, 185), (4969, 4977), (6618, 6618), (8304, 8304), (8308, 8313), (8320, 8329),
  (9312, 9320), (9332, 9340), (9352, 9360), (9450, 9450), (9461, 9469), (9471, 9471),
  (10102, 10110), (10112, 10120), (10122, 10130), (68160, 68163), (69216, 69224), (69714, 69722),
  (127232, 127242)]

@[irreducible] def isDecimal (c : Char) : Bool := inRanges decimalTable c

def isDigit (c : Char) : Bool := isDecimal c || inRanges otherDigitTable c

def decimalValue (c : Char) : Nat :=
  match decimalTable.find? (fun r => r.1 ≤ c.toNat && c.toNat ≤ r.2) with
  | some (a, _) => (c.toNat - a) % 10
  | none => 0

def allDigits (cs : List Char) : Bool := !cs.isEmpty && cs.all isDigit

/-! ## Whole numbers in texts

A whole number is written with decimal digits of any script, an optional sign in front, single
underscores between digits, and blanks around it.
-/

/-- The number that digits stand for, where `first` says that a digit has to come next. -/
def wholeGo : Bool → Nat → List Char → Option Nat
  | first, n, [] => if first then none else some n
  | first, n, c :: cs =>
    if c = '_' then (if first then none else wholeGo true n cs)
    else if isDecimal c then wholeGo false (n * 10 + decimalValue c) cs
    else none

/-- The number that a text writes, if it writes one. -/
def intOf? (s : String) : Option Int :=
  match stripChars isBlank s.toList with
  | '-' :: cs => (wholeGo true 0 cs).map fun n => -(n : Int)
  | '+' :: cs => (wholeGo true 0 cs).map fun n => (n : Int)
  | cs => (wholeGo true 0 cs).map fun n => (n : Int)

end Vetting.Text
