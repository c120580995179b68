import Vetting.Fault
import Vetting.Table
import Vetting.Text.Blank

/-!
# Sheets as texts

Lines of cells with commas between them, the first of which names the columns. A cell between quotes may hold
commas and line feeds, and a quote in it is written twice; cells are quoted only where they have to be.
-/

namespace Vetting

namespace Sheet

/-- Where a reader is in a line. -/
inductive Place where
  | lineStart
  | cellStart
  | plain
  | quoted
  /-- After a quote in a quoted cell, which ends the cell unless another follows. -/
  | closing
deriving BEq, DecidableEq, Inhabited

def addCell (cell : List Char) (cells : List String) : List String :=
  String.ofList cell.reverse :: cells

/-- Reads lines of cells. The cell and the cells of the line so far are kept backwards. -/
def linesGo : Place → List Char → List String → List Char → List (List String)
  | .lineStart, _, _, [] => []
  | _, cell, cells, [] => [(addCell cell cells).reverse]
  | .quoted, cell, cells, c :: cs =>
    if c = '"' then linesGo .closing cell cells cs else linesGo .quoted (c :: cell) cells cs
  | .lineStart, cell, cells, c :: cs =>
    if c = '\n' then [] :: linesGo .lineStart [] [] cs
    else if c = '"' then linesGo .quoted [] [] cs
    else if c = ',' then linesGo .cellStart [] (addCell cell cells) cs
    else linesGo .plain [c] [] cs
  | place, cell, cells, c :: cs =>
    if c = '\n' then (addCell cell cells).reverse :: linesGo .lineStart [] [] cs
    else if c = ',' then linesGo .cellStart [] (addCell cell cells) cs
    else if c = '"' && place = .cellStart then linesGo .quoted [] cells cs
    else if c = '"' && place = .closing then linesGo .quoted (c :: cell) cells cs
    else linesGo .plain (c :: cell) cells cs

def lines (s : String) : List (List String) := linesGo .lineStart [] [] s.toList

/-- The cells of a line by columns, some perhaps missing or left over. -/
structure Line where
  cells : Table String (Option String)
  extra : List String := []
deriving BEq, DecidableEq, Inhabited

def Line.ofCells (header : List String) (cells : List String) : Line :=
  { cells := Table.ofPairs ((header.zip (cells.map some)) ++ (header.drop cells.length).map fun k => (k, none))
    extra := cells.drop header.length }

end Sheet

/-- A sheet: the names of its columns, if it has any line, and the lines below. -/
structure Sheet where
  header : Option (List String)
  rows : List Sheet.Line
deriving BEq, DecidableEq, Inhabited

def Sheet.ofText (s : String) : Sheet :=
  match Sheet.lines s with
  | [] => { header := none, rows := [] }
  | header :: rest =>
    { header := some header, rows := (rest.filter fun l => !l.isEmpty).map (Sheet.Line.ofCells header) }

namespace Sheet

def isSpecial (c : Char) : Bool := c = ',' || c = '"' || c = '\r' || c = '\n'

def doubled : List Char → List Char
  | [] => []
  | c :: cs => if c = '"' then '"' :: '"' :: doubled cs else c :: doubled cs

def quoteCell (cell : String) : String := String.ofList ('"' :: doubled cell.toList ++ ['"'])

def writeCell (cell : String) : String :=
  if cell.toList.any isSpecial then quoteCell cell else cell

def writeLine (cells : List String) : String :=
  (if cells = [""] then "\"\"" else Text.join "," (cells.map writeCell)) ++ "\r\n"

def ordered (columns : List String) (cells : Table String (Option String)) : List String :=
  columns.map fun k => ((cells.get? k).getD none).getD ""

end Sheet

end Vetting

/-!
## Columns of values

If all cells of a column write numbers, it is a column of numbers, and if all write truths, one of truths.
What is kept of a value is the text it is shown as.
-/

namespace Vetting.Sheet

def missingWords : List String :=
  ["", "#N/A", "#N/A N/A", "#NA", "-1.#IND", "-1.#QNAN", "-NaN", "-nan", "1.#IND", "1.#QNAN", "<NA>", "N/A", "NA",
    "NULL", "NaN", "None", "n/a", "nan", "null"]

variable (s : String)

def isMissing : Bool := missingWords.contains s

def isDigit (c : Char) : Bool := '0' ≤ c && c ≤ '9'

def cutSign : List Char → Bool × List Char
  | '-' :: cs => (true, cs)
  | '+' :: cs => (false, cs)
  | cs => (false, cs)

def trimmed : List Char := Text.stripChars (fun c => c = ' ' || ('\t' ≤ c && c ≤ '\r')) s.toList

def whole? : Option Int :=
  let (negative, ds) := cutSign (trimmed s)
  if ds.isEmpty || !ds.all isDigit then none
  else
    let n : Int := Text.natOfDigits ds
    some (if negative then -n else n)

/-- An exponent, and whether nothing follows it. -/
def exponent? : List Char → Option Int
  | [] => some 0
  | c :: cs =>
    if c = 'e' || c = 'E' then
      let (negative, ds) := cutSign cs
      if ds.isEmpty || !ds.all isDigit then none
      else
        let n : Int := Text.natOfDigits ds
        some (if negative then -n else n)
    else none

/-- The decimal number that a cell writes: its digits as a whole number and the power of ten. -/
def decimal? : Option (Int × Int) :=
  let (negative, cs) := cutSign (trimmed s)
  let before := cs.takeWhile isDigit
  let rest := cs.drop before.length
  let (after, rest) := match rest with
    | '.' :: rest => (rest.takeWhile isDigit, rest.dropWhile isDigit)
    | rest => ([], rest)
  if before.isEmpty && after.isEmpty then none
  else (exponent? rest).map fun e =>
    let n : Int := Text.natOfDigits (before ++ after)
    (if negative then -n else n, e - after.length)

def truth? : Option Bool :=
  if ["True", "TRUE", "true"].contains s then some true
  else if ["False", "FALSE", "false"].contains s then some false else none

/-- The text of a decimal number: written out unless it is very small or very large. -/
def decimalText (m e : Int) : String :=
  let digits := Text.stripEnd (· = '0') (Text.ofNat m.natAbs).toList
  let sign := if m < 0 then "-" else ""
  if digits.isEmpty then sign ++ "0.0"
  else
    let point := ((Text.ofNat m.natAbs).length : Int) + e
    if -4 < point && point ≤ 16 then
      if point ≤ 0 then sign ++ "0." ++ String.ofList (List.replicate (-point).toNat '0' ++ digits)
      else
        let n := point.toNat
        let padded := digits ++ List.replicate (n - digits.length) '0'
        let fraction := padded.drop n
        sign ++ String.ofList (padded.take n) ++ "." ++ (if fraction.isEmpty then "0" else String.ofList fraction)
    else
      let fraction := digits.drop 1
      let mark := if point - 1 < 0 then "e-" else "e+"
      sign ++ String.ofList (digits.take 1) ++ (if fraction.isEmpty then "" else "." ++ String.ofList fraction)
        ++ mark ++ Text.padLeft '0' 2 (Text.ofNat (point - 1).natAbs)

def missingText : String := "nan"

def readAs (read : String → Option String) (cells : List String) : Option (List String) :=
  cells.mapM fun s => if isMissing s then some missingText else read s

def fits (n : Int) : Bool := -9223372036854775808 < n && n < 18446744073709551616

def values (cells : List String) : List String :=
  let texts := cells.map fun s => if isMissing s then missingText else s
  match cells.mapM fun s => if isMissing s then some none else (whole? s).map some with
  | some ns =>
    if ns.any fun n => n.any fun n => !fits n then texts
    else if cells.any isMissing then ns.map fun n => (n.map fun n => decimalText n 0).getD missingText
    else ns.map fun n => Text.ofInt (n.getD 0)
  | none =>
    ((readAs (fun s => (decimal? s).map fun (m, e) => decimalText m e) cells).or
      (readAs (fun s => (truth? s).map fun b => if b then "True" else "False") cells)).getD texts

def isBlankLine (cells : List String) : Bool :=
  match cells with
  | [] => true
  | [s] => !s.isEmpty && s.toList.all Text.isBlank
  | _ => false

/-- Fills up lines to the length of the line before; only the first may be longer. -/
def evenLines : Bool → Nat → List (List String) → Except Fault (List (List String))
  | _, _, [] => .ok []
  | first, width, l :: ls => do
    if l.length > width && !first then throw (.cause .badColumns)
    let width := max width l.length
    return (l ++ List.replicate (width - l.length) "") :: (← evenLines false width ls)

/-- The values of a column. First cells beyond the header name the lines. -/
def column? (text name : String) : Except Fault (Option (List String)) := do
  match (lines text).filter fun l => !isBlankLine l with
  | [] => throw (.cause .emptyData)
  | header :: rest =>
    let rest ← evenLines true header.length rest
    let leading := (rest.headD header).length - header.length
    match header.findIdx? (· == name) with
    | none => return none
    | some i => return some (values (rest.map fun l => l[leading + i]?.getD ""))

end Vetting.Sheet
