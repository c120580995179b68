import Vetting.Host.Basic
import Vetting.Message.Binary
import Vetting.Message.Text
import Vetting.Sheet

/-!
# Files and the web

Reading and writing files, going through directories, and asking for addresses. A path that is not
absolute lies below the working directory.
-/

namespace Vetting.Job

open Text

def fixedDirectories : List String := ["/home/maloss/", "/home/salini/", "/data/"]

variable (p s q url : String)

def absolute : Job String := do
  let h ← get
  let p := Path.normal (Path.join h.cwd p)
  return if startsWithAny p fixedDirectories then h.root ++ p else p

def entryAt (h : Host) (p : String) : Option Entry :=
  if p = "/" || p = h.root then some .directory else h.files.get? p

def lookup : Job (Option Entry) := do
  if p.isEmpty then return none
  return entryAt (← get) (← absolute p)

def exists? : Job Bool := do return (← lookup p).isSome

def isDirectory : Job Bool := do
  match ← lookup p with
  | some .directory => return true
  | _ => return false

def isFile : Job Bool := do
  match ← lookup p with
  | some (.file _) => return true
  | _ => return false

/-! ## Contents -/

def bytesOf : List UInt8 := s.toUTF8.toList

def textOfBytes? (bs : List UInt8) : Option String := String.fromUTF8? ⟨bs.toArray⟩

def content : Job Content := do
  match ← lookup p with
  | some (.file c) => return c
  | some .directory => fault .isDirectory
  | none => fault .noFile

def Content.text? : Content → Option String
  | .text s => some (String.ofList (unifyLineEnds s.toList))
  | .bytes bs => (textOfBytes? bs).map fun s => String.ofList (unifyLineEnds s.toList)
  | .graph .. => none

def readText : Job String := do
  match Content.text? (← content p) with
  | some s => return s
  | none => fault .undecodable

def readRaw : Job String := do
  match ← content p with
  | .text s => return s
  | .bytes bs =>
    match textOfBytes? bs with
    | some s => return s
    | none => fault .undecodable
  | .graph .. => fault .undecodable

def readBytes : Job (List UInt8) := do
  match ← content p with
  | .text s => return bytesOf s
  | .bytes bs => return bs
  | .graph .. => return []

def write (c : Content) : Job Unit := do
  if p.isEmpty then fault .noFile
  let p ← absolute p
  let h ← get
  match entryAt h p with
  | some .directory => fault .isDirectory
  | _ =>
    match entryAt h (Path.parent p) with
    | some .directory => set { h with files := h.files.set p (.file c) }
    | some (.file _) => fault .notDirectory
    | none => fault .noFile

def writeText : Job Unit := write p (.text s)

def appendText : Job Unit := do
  match ← lookup p with
  | some (.file (.text t)) => writeText p (t ++ s)
  | some (.file (.bytes bs)) => write p (.bytes (bs ++ bytesOf s))
  | _ => writeText p s

def readDoc : Job Doc := do
  match Doc.parse? (← readText p) with
  | some d => return d
  | none => fault .badJson

def writePretty (d : Doc) : Job Unit := writeText p d.pretty

def readMessage (shape : String) (p : String) : Job Doc := do
  match Message.ofText? shape (← readText p) with
  | some d => return d
  | none => fault .badMessageText

def writeMessage (shape : String) (p : String) (d : Doc) : Job Unit :=
  writeText p (Message.toText shape d)

/-! ## Directories -/

def ancestors : List String :=
  let ps := Path.parts p
  (List.range (ps.length + 1)).drop 1 |>.map fun n => "/" ++ join "/" (ps.take n)

def makeAt : Job Unit := do
  let h ← get
  match entryAt h p with
  | some .directory => pure ()
  | some (.file _) => fault .notDirectory
  | none => set { h with files := h.files.set p .directory }

/-- Makes a directory and those above it; it may be there only if allowed. -/
def makeDirectories (existing : Bool := false) : Job Unit := do
  if p.isEmpty then fault .noFile
  let p ← absolute p
  match entryAt (← get) p with
  | some .directory => if existing then return else fault .fileExists
  | some (.file _) => fault .fileExists
  | none =>
    for q in ancestors p do makeAt q

def ensureDirectory : Job Unit := do
  if !(← exists? p) then makeDirectories p

/-- The names in a directory, sorted. -/
def list : Job (List String) := do
  let some e ← lookup p | fault .noFile
  match e with
  | .file _ => fault .notDirectory
  | .directory =>
    let p ← absolute p
    let start := if p = "/" then "/" else p ++ "/"
    let names := (← get).files.filterMap fun (q, _) =>
      if startsWith q start then
        let rest := String.ofList (q.toList.drop start.length)
        if rest.isEmpty || rest.toList.contains '/' then none else some rest
      else none
    return sort names

/-- A directory with its directories and its files, and the same for those below it. -/
structure Visit where
  path : String
  directories : List String
  files : List String
deriving Inhabited

/-- Goes through a directory and those below it, top down, a step a level. -/
def walkGo (h : Host) : Nat → String → String → List Visit
  | 0, _, _ => []
  | fuel + 1, p, abs =>
    let start := if abs = "/" then "/" else abs ++ "/"
    let below := h.files.filterMap fun (q, e) =>
      if startsWith q start then
        let rest := String.ofList (q.toList.drop start.length)
        if rest.isEmpty || rest.toList.contains '/' then none
        else some (rest, match e with | .directory => true | .file _ => false)
      else none
    let dirs := sort ((below.filter Prod.snd).map Prod.fst)
    let files := sort ((below.filter fun x => !x.2).map Prod.fst)
    ⟨p, dirs, files⟩ :: dirs.flatMap fun d => walkGo h fuel (Path.join p d) (Path.join abs d)

def walk : Job (List Visit) := do
  if !(← isDirectory p) then return []
  let h ← get
  return walkGo h (h.files.length + 1) p (← absolute p)

def filesBelow : Job (List String) := do
  return (← walk p).flatMap fun v => v.files.map (Path.join v.path)

/-! ## Removing and copying -/

def remove : Job Unit := do
  match ← lookup p with
  | none => fault .noFile
  | some .directory => fault .isDirectory
  | some (.file _) =>
    let p ← absolute p
    modify fun h => { h with files := h.files.erase p }

def removeTree : Job Unit := do
  match ← lookup p with
  | none => fault .noFile
  | some (.file _) => fault .notDirectory
  | some .directory =>
    let p ← absolute p
    modify fun h => { h with files := h.files.filter fun x => !(x.1 == p || Path.isBelow x.1 p) }

def copy : Job Unit := do
  let c ← content p
  let q := if ← isDirectory q then Path.join q (Path.base p) else q
  write q c

def copyFile : Job Unit := do write q (← content p)

def move : Job Unit := do
  copy p q
  remove p

def homeDirectory : Job String := do
  let h ← get
  return (h.env.get? "HOME").getD (h.root ++ "/home")

def expandHome : Job String := do
  if p = "~" || startsWith p "~/" then
    let home ← homeDirectory
    return rstripOf home "/" ++ String.ofList (p.toList.drop 1)
  else return p

def freshName (start : String := "tmp") (suffix : String := "") (dir : Option String := none) : Job String := do
  let h ← get
  let dir := match dir with
    | some d => d
    | none => h.root ++ "/tmp"
  set { h with temporary := h.temporary + 1 }
  return Path.join dir (start ++ "t" ++ ofNat h.temporary ++ suffix)

def temporaryDir (start : String := "tmp") (dir : Option String := none) : Job String := do
  let p ← freshName start "" dir
  makeDirectories p true
  return p

def temporaryFile (start : String := "tmp") (suffix : String := "") : Job String := do
  let p ← freshName start suffix
  writeText p ""
  return p

/-! ## Graphs in files

A graph is stored as bytes, either plain or as the one member of an archive.
-/

def readPackedGraph : Job Graph := do
  match ← content p with
  | .graph g true => return g
  | _ => fault .badArchive

def readGraph : Job Graph := do
  match ← content p with
  | .graph g false => return g
  | .text "" => fault .outOfInput
  | .bytes [] => fault .outOfInput
  | _ => fault .badPickle

def readGraphText : Job Graph := do
  let _ ← readText p
  fault .wrongType

def writeGraph (g : Graph) : Job Unit := write p (.graph g false)

/-! ## The web

Asking for addresses. Every request is noted, also one that finds nobody.
-/

def fetch : Job Response := do
  note fun l => { l with requests := l.requests ++ [url] }
  match (← get).web.get? url with
  | some (some r) => return r
  | _ => fault .unreachable

def fetchText : Job String := do return (← fetch url).text

def parseDoc : Job Doc :=
  match Doc.parse? s with
  | some d => return d
  | none => fault .badJson

def fetchDoc : Job Doc := do parseDoc (← fetchText url)

/-!
## Patterns for file names

A star stands for any text, a question mark for any character, brackets for one of a set. A dot at the start
of a name has to be in the pattern.
-/

def inSet (c : Char) : List Char → Bool
  | a :: '-' :: b :: rest => (a ≤ c && c ≤ b) || inSet c rest
  | a :: rest => a = c || inSet c rest
  | [] => false

/-- The set that a pattern starts with after an opening bracket, and the rest. -/
def readSet (cs : List Char) : Option (Bool × List Char × List Char) :=
  let (negated, cs) := match cs with
    | '!' :: rest => (true, rest)
    | cs => (false, cs)
  let (first, rest) := match cs with
    | ']' :: rest => ([']'], rest)
    | cs => ([], cs)
  let body := rest.takeWhile (· != ']')
  match rest.drop body.length with
  | ']' :: after => some (negated, first ++ body, after)
  | _ => none

def matchesName : Nat → List Char → List Char → Bool
  | 0, _, _ => false
  | _ + 1, [], cs => cs.isEmpty
  | fuel + 1, '*' :: ps, cs =>
    matchesName fuel ps cs || match cs with
      | [] => false
      | _ :: cs => matchesName fuel ('*' :: ps) cs
  | fuel + 1, '?' :: ps, cs => match cs with
    | [] => false
    | _ :: cs => matchesName fuel ps cs
  | fuel + 1, '[' :: ps, cs =>
    match readSet ps, cs with
    | some (negated, set, rest), c :: cs => (inSet c set != negated) && matchesName fuel rest cs
    | some _, [] => false
    | none, c :: cs => c = '[' && matchesName fuel ps cs
    | none, [] => false
  | fuel + 1, p :: ps, cs => match cs with
    | [] => false
    | c :: cs => p = c && matchesName fuel ps cs

def hasMagic : Bool := p.toList.any fun c => c = '*' || c = '?' || c = '['

def fitsPattern (pattern name : String) : Bool :=
  (!startsWith name "." || startsWith pattern ".") &&
    matchesName (pattern.length + name.length + 2) pattern.toList name.toList

/-- The paths that fit a pattern in their last part. -/
def glob (pattern : String) : Job (List String) := do
  let (dir, name) := Path.split pattern
  if !hasMagic pattern then
    return if ← exists? pattern then [pattern] else []
  if !hasMagic name then
    return if ← exists? pattern then [pattern] else []
  let at_ := if dir.isEmpty then "." else dir
  if !(← isDirectory at_) then return []
  return ((← list at_).filter (fitsPattern name)).map fun n =>
    if dir.isEmpty then n else Path.join dir n

/-! ## Sheets in files

A sheet is read as a whole. It is written line by line, so that what was written before a fault
stays in the file.
-/

def readSheet : Job Sheet := do return Sheet.ofText (← readText p)

def columns (s : Sheet) : Job (List String) :=
  match s.header with
  | some h => return h
  | none => fault .wrongType

/-- Starts a sheet with the columns of another, found before, after a change. -/
def startSheetFrom (source target : String) (change : List String → List String := id) :
    Job (Sheet × List String) := do
  let _ ← content source
  writeText target ""
  let s ← readSheet source
  let names := change (← columns s)
  appendText target (Sheet.writeLine names)
  return (s, names)

/-- Adds a line to a sheet. Cells of other columns are refused. -/
def addLine (columns : List String) (line : Sheet.Line) : Job Unit := do
  if !line.extra.isEmpty || line.cells.any fun c => !columns.contains c.1 then fault .badValue
  appendText p (Sheet.writeLine (Sheet.ordered columns line.cells))

end Vetting.Job
