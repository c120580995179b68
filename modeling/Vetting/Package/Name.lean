import Vetting.Fault
import Vetting.Text.Basic

/-!
# Package names that can name files and containers

`fileName` makes the name of a package fit for files, `containerName` for containers, whose first character
must be a letter or a digit.
-/

namespace Vetting.Package

def isNameChar (c : Char) : Bool := c.isAlphanum || c = '_' || c = '.' || c = '-'

variable (cs : List Char) (name : String) (version : Option String) (asRoot : Bool) (word : String)

def dotSlashes : List Char := cs.flatMap fun c => if c = '/' then ['.', '.'] else [c]

def dotInvalid : List Char := cs.flatMap fun c => if isNameChar c then [c] else ['.', '.']

def fileName : List Char := dotInvalid (dotSlashes cs)

def dropScope : List Char :=
  if cs.head? = some '@' then Text.stripChars (· = '@') cs else cs

/-- A package name made fit for containers; one of scope signs only cannot be. -/
def containerName : Except Fault (List Char) :=
  match cs with
  | [] => .ok []
  | cs =>
    match dropScope (dotSlashes cs) with
    | [] => .error (.cause .outOfRange)
    | c :: rest =>
      let name := if c.isAlphanum then c :: rest else "san..".toList ++ c :: rest
      .ok (dotInvalid name)

def shown : Option String → String
  | none => "None"
  | some s => s

def containerPrefix : Except Fault String :=
  (containerName name.toList).map fun n => String.ofList n ++ ".." ++ shown version ++ ".."

def containerFor (job : Option String) : Except Fault String :=
  (containerPrefix name version).map (· ++ shown job)

def forFile : String := String.ofList (fileName name.toList)

/-! ## Names of cache and result files

Every file that is kept about a package is named for the package, its version, and what it holds.
-/

/-- What a file about a package holds. -/
inductive FileKind where
  | trace | traceDep
  | versions | versionHashes | compareVersions
  | metadata | dep | flattenDep
  | astgen | astfilter | taint | danger | static | result
  | dynamic | concolic
deriving BEq, DecidableEq, Inhabited

def versioned : String :=
  match version with
  | some v => if v.isEmpty then name ++ ":latest" else name ++ ":" ++ v
  | none => name ++ ":latest"

def sudoMark : String := if asRoot then ":sudo" else ""

def messageExt (binary : Bool) : String := if binary then "pb" else "txt"

/-- Drops what follows the last dot of a path's last part, unless only dots come before. -/
def dropExt : List Char :=
  let base := (cs.reverse.takeWhile (· != '/')).reverse
  let dir := cs.take (cs.length - base.length)
  match Text.cutLast '.' base with
  | none => cs
  | some (stem, _) => if stem.all (· = '.') then cs else dir ++ stem

def traceFile : String :=
  versioned (forFile name) version ++ sudoMark asRoot ++ ".strace"

def traceDepFile : String :=
  String.ofList (dropExt (traceFile (forFile name) version asRoot).toList) ++ ".dep.strace"

def packageFile (name : String) (format : Option String) : String :=
  forFile name ++ "." ++ word ++ "." ++ shown format

def cacheFile (name : String) (version : Option String) (asRoot : Bool) (format : Option String) : String :=
  versioned (forFile name) version ++ sudoMark asRoot ++ "." ++ word ++ "." ++ shown format

def messageFile (name : String) (version : Option String) (binary : Bool) : String :=
  versioned (forFile name) version ++ "." ++ word ++ "." ++ messageExt binary

def dynamicFile (binary sanitized : Bool) : String :=
  versioned (if sanitized then name else forFile name) version ++ sudoMark asRoot ++ ".dynamic." ++ messageExt binary

/-- Everything that a file name is made from. -/
structure FileRequest where
  name : String
  version : Option String := none
  asRoot : Bool := false
  format : Option String := some "json"
  binary : Bool := false
  sanitized : Bool := false

/-- The file of a kind. Running a package and exploring its paths share one. -/
def FileKind.file (k : FileKind) (r : FileRequest) : String :=
  match k with
  | .trace => traceFile r.name r.version r.asRoot
  | .traceDep => traceDepFile r.name r.version r.asRoot
  | .versions => packageFile "versions" r.name r.format
  | .versionHashes => packageFile "version2hash" r.name r.format
  | .compareVersions => packageFile "compare_versions" r.name r.format
  | .metadata => cacheFile "metadata" r.name r.version r.asRoot r.format
  | .dep => cacheFile "dep" r.name r.version r.asRoot r.format
  | .flattenDep => cacheFile "flatten_dep" r.name r.version r.asRoot r.format
  | .astgen => messageFile "astgen" r.name r.version r.binary
  | .astfilter => messageFile "astfilter" r.name r.version r.binary
  | .taint => messageFile "taint" r.name r.version r.binary
  | .danger => messageFile "danger" r.name r.version r.binary
  | .static => messageFile "static" r.name r.version r.binary
  | .result => messageFile "result" r.name r.version r.binary
  | .dynamic | .concolic => dynamicFile r.name r.version r.asRoot r.binary r.sanitized

end Vetting.Package
