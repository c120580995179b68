import Vetting.Survey.Dependencies

/-!
# Authors

Who publishes packages, how many, and how popular they are: a graph of authors and their packages,
and numbers for the leading authors.
-/

namespace Vetting.Survey

/-! ## Numbers -/

def addNumbers (x y : Literal) : Except Fault Literal :=
  match x.number?, y.number? with
  | some (m, 0), some (n, 0) => .ok (.int (m + n))
  | some (m, e), some (n, f) =>
    if e ≤ f then .ok (.decimal (m + n * Int.pow 10 (f - e).toNat) e) else .ok (.decimal (m * Int.pow 10 (e - f).toNat + n) f)
  | _, _ => .error (.cause .wrongType)

abbrev Numbers := Table String Literal

def Numbers.add (t : Numbers) (k : String) (n : Literal) : Except Fault Numbers := do
  return Table.set t k (← addNumbers ((t.get? k).getD (.int 0)) n)

def numberNames (l : Language) : List String :=
  ["pkg_count", "download_count", "use_count", l.word ++ "_pkg_count", l.word ++ "_download_count",
    l.word ++ "_use_count"]

/-- What the authors of the packages seen so far have done. -/
structure Authorship where
  graph : Graph := {}
  numbers : List (Literal × Numbers) := []
deriving Inhabited

namespace Authorship

variable (a : Authorship) (n : Option Int)

def numbersOf (author : Literal) : Numbers :=
  ((a.numbers.find? fun p => Literal.same p.1 author).map Prod.snd).getD []

def setNumbers (author : Literal) (n : Numbers) : Authorship :=
  { a with numbers :=
      if a.numbers.any fun p => Literal.same p.1 author then
        a.numbers.map fun p => if Literal.same p.1 author then (p.1, n) else p
      else a.numbers ++ [(author, n)] }

def addAuthor (l : Language) (package : Literal) (downloads : Literal) (uses : Nat) (a : Authorship)
    (author : Literal) : Except Fault Authorship := do
  let node ← asNode author
  let g := (a.graph.addNode node [("type", .text "author")]).addEdge node package
  let a := { a with graph := g }
  let start := (numberNames l).foldl (fun (t : Numbers) k => Table.setDefault t k (.int 0)) (a.numbersOf author)
  let numbers ← ((numberNames l).zip [.int 1, downloads, .int uses, .int 1, downloads, .int uses]).foldlM
    (fun t (k, n) => Numbers.add t k n) start
  return a.setNumbers author numbers

def cellText (c : Option String) : String := c.getD "None"

def addRow (l : Language) (deps : Graph) (a : Authorship) (r : Package.Row) : Except Fault Authorship := do
  let name ← r.cell "package name"
  let source ← r.cell "source"
  let package := Literal.text (cellText source ++ ":" ++ cellText name)
  let downloads := match ← r.downloads none with
    | .none => .int 0
    | n => n
  let uses ← useCount deps name
  let a := { a with graph := a.graph.addNode package [("downloads", downloads), ("type", .text "package")] }
  (← r.authorAddresses l).foldlM (addAuthor l package downloads uses) a

def firstOnes {α : Type} (xs : List α) : List α :=
  match n with
  | none => xs
  | some n => if 0 ≤ n then xs.take n.toNat else xs.take (xs.length - n.natAbs)

def leading (k : String) : Except Fault (List Literal) := do
  let value (t : Numbers) := (t.get? k).getD (.int 0)
  return (firstOnes n (← sortDescending (fun x y => (value x.2).less (value y.2)) a.numbers)).map Prod.fst

def fieldName : Literal → Except Fault String
  | .text s => .ok s
  | .int n => .ok (Text.ofInt n)
  | .bool b => .ok (if b then "true" else "false")
  | _ => .error (.cause .wrongType)

def leadingDoc : Except Fault Doc := do
  let leaders := (← ["pkg_count", "download_count", "use_count"].mapM (a.leading n)).flatten
  return .ofPairs (← (a.numbers.filter fun p => Literal.isIn p.1 leaders).mapM fun (k, t) => do
    return (← fieldName k, .obj (t.map fun (k, v) => (k, v.toDoc))))

end Authorship

/-- Writes the graph of the authors of packages and the numbers of the leading ones. -/
def buildAuthors (infiles : List String) (languages : List Language) (outfile : String)
    (top : Option Int := some 200) (topFile : Option String := none) : Job Unit := do
  let mut a : Authorship := {}
  for (infile, l) in infiles.zip languages do
    let _ ← Job.content infile
    let deps ← storedGraph l
    for r in (← Job.readSheet infile).rows do
      a ← a.addRow l deps r.cells
  let doc ← a.leadingDoc top
  if let some p := topFile.filter fun s => !s.isEmpty then Job.writePretty p doc
  Job.writeGraph outfile a.graph

end Vetting.Survey
