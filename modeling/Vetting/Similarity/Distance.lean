/-!
# Edit distance

`tableDistance` fills a table from two sequences, first its edges and then row by row; `rowDistance` keeps one
row and walks it in place with machine words, on bytes that end at a zero. `Edits` is the relation that both
are measured against: the ways to turn one sequence into another, with their costs.
-/

namespace Vetting.Similarity

/-- `Edits s t n`: the sequence `s` becomes `t` by `n` insertions, deletions and substitutions. -/
inductive Edits {α : Type} : List α → List α → Nat → Prop where
  | nil : Edits [] [] 0
  | keep {s t n} (a : α) : Edits s t n → Edits (a :: s) (a :: t) n
  | insert {s t n} (a : α) : Edits s t n → Edits s (a :: t) (n + 1)
  | delete {s t n} (a : α) : Edits s t n → Edits (a :: s) t (n + 1)
  | substitute {s t n} (a b : α) : Edits s t n → Edits (a :: s) (b :: t) (n + 1)

variable {α : Type} [BEq α]

/-! ## The table -/

abbrev Cells := Array (Array (Option Nat))

namespace Cells

def read? (cells : Cells) (i j : Nat) : Option Nat := cells[i]?.bind fun row => row[j]?.join

def write (cells : Cells) (i j n : Nat) : Cells :=
  cells.modify i fun row => row.setIfInBounds j (some n)

end Cells

/-- A table that is being filled, and the row and the column that the loops were at last. -/
structure Filling where
  cells : Cells
  row : Nat := 0
  column : Nat := 0

namespace Filling

def blank (m n : Nat) : Filling := { cells := Array.replicate (m + 1) (Array.replicate (n + 1) none) }

def countRow (f : Filling) (i : Nat) : Filling := { f with cells := f.cells.write i 0 i, row := i }

def countColumn (f : Filling) (j : Nat) : Filling := { f with cells := f.cells.write 0 j j, column := j }

def edges (m n : Nat) : Filling :=
  (List.range (n + 1)).foldl countColumn ((List.range (m + 1)).foldl countRow (blank m n))

/-- Fills the cell in row `i` and column `j`, from those to the left, above and on the diagonal. -/
def fillCell (i : Nat) (a : α) (f : Filling) (j : Nat) (b : α) : Option Filling := do
  let left ← f.cells.read? i (j - 1)
  let above ← f.cells.read? (i - 1) j
  let diagonal ← f.cells.read? (i - 1) (j - 1)
  let n := min (min (left + 1) (above + 1)) (diagonal + if a == b then 0 else 1)
  return { f with cells := f.cells.write i j n, column := j }

def fillRow (t : List α) (f : Filling) (i : Nat) (a : α) : Option Filling :=
  (t.zipIdx 1).foldlM (fun f p => fillCell i a f p.2 p.1) { f with row := i }

def fillRows (s t : List α) (f : Filling) : Option Filling :=
  (s.zipIdx 1).foldlM (fun f p => fillRow t f p.2 p.1) f

def last? (f : Filling) : Option Nat := f.cells.read? f.row f.column

end Filling

def tableDistance? (s t : List α) : Option Nat := do
  (← Filling.fillRows s t (Filling.edges s.length t.length)).last?

def tableDistance (s t : List α) : Nat := (tableDistance? s t).getD 0

/-! ## One row of machine words -/

abbrev Row := Array (Option UInt32)

def Row.read? (row : Row) (i : Nat) : Option UInt32 := row[i]?.join

def Row.write? (row : Row) (i : Nat) (word : UInt32) : Option Row :=
  if i < row.size then some (row.setIfInBounds i (some word)) else none

def Row.counting (n : Nat) : Row :=
  Array.ofFn fun y : Fin (n + 1) => if y.val = 0 then none else some (UInt32.ofNat y.val)

def leastOf (a b c : UInt32) : UInt32 := if a < b then (if a < c then a else c) else if b < c then b else c

/-- Walks the row upwards from cell `y`, in place; `diagonal` is the word that cell `y` held before. -/
def walkRow (b : UInt8) : List UInt8 → Nat → UInt32 → Row → Option Row
  | [], _, _, row => some row
  | a :: s, y, diagonal, row => do
    let old ← row.read? (y + 1)
    let below ← row.read? y
    let cell := leastOf (old + 1) (below + 1) (diagonal + if a == b then 0 else 1)
    walkRow b s (y + 1) old (← row.write? (y + 1) cell)

/-- The row after each element of the second sequence; `count` is how many have been read. -/
def walkRows (s : List UInt8) : UInt32 → List UInt8 → Row → Option Row
  | _, [], row => some row
  | count, b :: t, row => do
    let count := count + 1
    let row ← row.write? 0 count
    walkRows s count t (← walkRow b s 0 (count - 1) row)

def bytesToZero (bytes : List UInt8) : List UInt8 := bytes.takeWhile (· != 0)

def rowDistance (s t : List UInt8) : Option UInt32 := do
  let s := bytesToZero s
  let row ← walkRows s 0 (bytesToZero t) (Row.counting s.length)
  row.read? s.length

def writeDistances (t : List UInt8) : List (List UInt8) → Nat → Row → Row
  | [], _, results => results
  | s :: rest, i, results =>
    writeDistances t rest (i + 1) (results.setIfInBounds i (rowDistance s t))

def rowDistances (sequences : List (List UInt8)) (t : List UInt8) : Row :=
  writeDistances t sequences 0 (Array.replicate sequences.length (some 0))

def byteDistance (s t : String) : UInt32 :=
  (rowDistance s.toUTF8.toList t.toUTF8.toList).getD 0

def byteDistances (texts : List String) (t : String) : List UInt32 :=
  (rowDistances (texts.map (·.toUTF8.toList)) t.toUTF8.toList).toList.map (·.getD 0)

end Vetting.Similarity
