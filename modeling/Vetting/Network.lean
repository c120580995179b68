import Vetting.Host.Files

/-!
# Connections in alerts

Alerts name the two ends of a connection and the container that made it. The pairs of ends are
counted by the containers they were seen with.
-/

/-! ## Addresses of the web

The parts of an address, addresses seen from another one, and texts in an address.
-/

namespace Vetting.Network

open String

structure Address where
  scheme : String := ""
  host : String := ""
  path : String := ""
  params : String := ""
  query : String := ""
  fragment : String := ""
deriving BEq, DecidableEq, Inhabited

namespace Address

def relativeSchemes : List String :=
  ["", "ftp", "http", "gopher", "nntp", "imap", "wais", "file", "https", "shttp", "mms", "prospero", "rtsp", "rtsps",
    "rtspu", "sftp", "svn", "svn+ssh", "ws", "wss"]

def hostSchemes : List String :=
  ["", "ftp", "http", "gopher", "nntp", "telnet", "imap", "wais", "file", "mms", "https", "shttp", "snews",
    "prospero", "rtsp", "rtsps", "rtspu", "rsync", "svn", "svn+ssh", "sftp", "nfs", "git", "git+ssh", "ws", "wss"]

def paramSchemes : List String :=
  ["", "ftp", "hdl", "prospero", "http", "https", "shttp", "rtsp", "rtsps", "rtspu", "sip", "sips", "mms", "sftp",
    "tel"]

def isSchemeChar (c : Char) : Bool := c.isAlphanum || c = '+' || c = '-' || c = '.'

def clean (s : String) : List Char :=
  (s.toList.dropWhile fun c => c.toNat ≤ 32).filter fun c => c != '\t' && c != '\n' && c != '\r'

/-- The scheme that a text begins with, if it does, and the rest. -/
def cutScheme (default : String) (cs : List Char) : String × List Char :=
  match Text.cutFirst ':' cs with
  | some (c :: before, after) =>
    if c.isAlpha && before.all isSchemeChar then (ofList ((c :: before).map Char.toLower), after)
    else (default, cs)
  | _ => (default, cs)

def cutAt (c : Char) (cs : List Char) : List Char × List Char := (Text.cutFirst c cs).getD (cs, [])

def cutParams (path : List Char) : List Char × List Char :=
  match Text.cutLast '/' path with
  | some (before, last) =>
    match Text.cutFirst ';' last with
    | some (a, b) => (before ++ '/' :: a, b)
    | none => (path, [])
  | none => cutAt ';' path

def oddBrackets (host : List Char) : Bool := host.contains '[' != host.contains ']'

def ofText (s : String) (scheme : String := "") : Except Fault Address := do
  let (scheme, cs) := cutScheme scheme (clean s)
  let (host, cs) := match cs with
    | '/' :: '/' :: cs => (cs.takeWhile fun c => !(['/', '?', '#'].contains c),
        cs.dropWhile fun c => !(['/', '?', '#'].contains c))
    | cs => ([], cs)
  if oddBrackets host then throw (.cause .badValue)
  let (cs, fragment) := cutAt '#' cs
  let (cs, query) := cutAt '?' cs
  let (path, params) := if paramSchemes.contains scheme && cs.contains ';' then cutParams cs else (cs, [])
  return { scheme, host := ofList host, path := ofList path, params := ofList params
           query := ofList query, fragment := ofList fragment }

def text (a : Address) : String :=
  let path := if a.params.isEmpty then a.path else a.path ++ ";" ++ a.params
  let whole :=
    if !a.host.isEmpty || (!a.scheme.isEmpty && hostSchemes.contains a.scheme) || Text.startsWith path "//" then
      "//" ++ a.host ++ (if !path.isEmpty && !Text.startsWith path "/" then "/" ++ path else path)
    else path
  (if a.scheme.isEmpty then "" else a.scheme ++ ":") ++ whole
    ++ (if a.query.isEmpty then "" else "?" ++ a.query) ++ (if a.fragment.isEmpty then "" else "#" ++ a.fragment)

/-- The steps of a path with empty ones left out, except at its ends. -/
def dropEmpty (parts : List String) : List String :=
  match parts with
  | first :: rest =>
    match rest.getLast? with
    | some last => first :: rest.dropLast.filter (fun s => !s.isEmpty) ++ [last]
    | none => [first]
  | [] => []

/-- The steps of a path after going back where it says so. -/
def resolveSteps (parts : List String) : List String :=
  let steps := (parts.foldl (fun (done : List String) s =>
    if s = ".." then done.drop 1 else if s = "." then done else s :: done) []).reverse
  match parts.getLast? with
  | some last => if last = "." || last = ".." then steps ++ [""] else steps
  | none => steps

def join (base url : String) : Except Fault String := do
  if base.isEmpty then return url
  if url.isEmpty then return base
  let b ← ofText base
  let a ← ofText url b.scheme
  if a.scheme != b.scheme || !relativeSchemes.contains a.scheme then return url
  if hostSchemes.contains a.scheme && !a.host.isEmpty then return a.text
  let a := if hostSchemes.contains a.scheme then { a with host := b.host } else a
  if a.path.isEmpty && a.params.isEmpty then
    return { a with path := b.path, params := b.params, query := if a.query.isEmpty then b.query else a.query }.text
  let baseParts := Text.splitOn b.path "/"
  let baseParts := if baseParts.getLast? = some "" then baseParts else baseParts.dropLast
  let own := Text.splitOn a.path "/"
  let parts := if Text.startsWith a.path "/" then own else dropEmpty (baseParts ++ own)
  let path := Text.join "/" (resolveSteps parts)
  return { a with path := if path.isEmpty then "/" else path }.text

end Address

/-! ### Texts in addresses -/

variable (c : Char) (cs : List Char)

def isPlain : Bool := c.isAlphanum || c = '_' || c = '.' || c = '-' || c = '~'

def encodeByte (b : UInt8) : List Char :=
  let digit (n : Nat) := Char.ofNat (if n < 10 then 48 + n else 55 + n)
  ['%', digit (b.toNat / 16), digit (b.toNat % 16)]

def encode (s : String) : String :=
  ofList (s.toList.flatMap fun c =>
    if isPlain c then [c] else if c = ' ' then ['+'] else (ofList [c]).toUTF8.toList.flatMap encodeByte)

def hexDigit? : Option Nat :=
  if c.isDigit then some (c.toNat - 48)
  else if 'a' ≤ c && c ≤ 'f' then some (c.toNat - 87)
  else if 'A' ≤ c && c ≤ 'F' then some (c.toNat - 55) else none

def decodeBytes : List Char → List UInt8
  | [] => []
  | '%' :: a :: b :: cs =>
    match hexDigit? a, hexDigit? b with
    | some m, some n => (m * 16 + n).toUInt8 :: decodeBytes cs
    | _, _ => 37 :: decodeBytes (a :: b :: cs)
  | c :: cs => (ofList [c]).toUTF8.toList ++ decodeBytes cs
termination_by cs => cs.length

def decode (s : String) : String := Text.lossy (decodeBytes s.toList)

/-- The names and values of a query; those without a value are left out. -/
def queryPairs (query : String) : List (String × String) :=
  (Text.splitOn query "&").filterMap fun part =>
    match Text.cutFirst '=' part.toList with
    | some (name, value) =>
      if value.isEmpty then none
      else
        let plain (cs : List Char) := decode (ofList (cs.map fun c => if c = '+' then ' ' else c))
        some (plain name, plain value)
    | none => none

def queryText (pairs : List (String × String)) : String :=
  Text.join "&" (pairs.map fun (k, v) => encode k ++ "=" ++ encode v)

/-!
## Host names and addresses

A label has at most 63 letters, digits and hyphens, and neither starts nor ends with a hyphen. Digits may be of
any script; and a line feed may follow a label.
-/

def isLabelLetter : Bool :=
  c.isAlpha || c.toNat = 0x130 || c.toNat = 0x131 || c.toNat = 0x17F || c.toNat = 0x212A

def isLabelChar : Bool := isLabelLetter c || Text.isDecimal c || c = '-'

def isBareLabel : Bool :=
  1 ≤ cs.length && cs.length ≤ 63 && cs.all isLabelChar && cs.head? != some '-' && cs.getLast? != some '-'

def isLabel : Bool :=
  isBareLabel (if cs.getLast? = some '\n' then cs.dropLast else cs)

def isHostName : Bool :=
  if cs.isEmpty || cs.length > 255 then false
  else
    let cs := if cs.getLast? = some '.' then cs.dropLast else cs
    cs.contains '.' && (Text.splitChars ['.'] cs).all isLabel

/-! ### Patterns -/

/-- One place of an address pattern: a fixed character, any but a line feed, or a range. -/
inductive Place where
  | exactly (c : Char)
  | any
  | oneOf (cs : List Char)

def Place.fits : Place → Char → Bool
  | .exactly d, c => d == c
  | .any, c => c != '\n'
  | .oneOf ds, c => ds.contains c

def matchPlaces : List Place → List Char → Option (List Char)
  | [], _ => some []
  | _ :: _, [] => none
  | p :: ps, c :: cs => if p.fits c then (matchPlaces ps cs).map (c :: ·) else none

def placesOf : List Char → List Place
  | [] => []
  | '?' :: cs => .any :: placesOf cs
  | '#' :: cs => .exactly '.' :: placesOf cs
  | c :: cs => .exactly c :: placesOf cs

def digitsFrom (a b : Nat) : List Char := (List.range (b + 1 - a)).map fun k => Char.ofNat (48 + a + k)

open Place in
/-- The patterns of addresses that no public host has, as they are tried. -/
def reservedPatterns : List (List Place) := [
  placesOf "0#".toList, placesOf "10#".toList, placesOf "127#".toList,
  placesOf "169?254#".toList, placesOf "192?0?0#".toList, placesOf "192?0?2#".toList,
  placesOf "192?88?99#".toList, placesOf "192?168#".toList, placesOf "198?51?100#".toList,
  placesOf "203?0?113#".toList, placesOf "255?255?255?255".toList,
  placesOf "198#1".toList ++ [oneOf ['8', '9'], exactly '.'],
  [exactly '2', oneOf ['2', '3'], oneOf (digitsFrom 4 9), exactly '.'],
  [exactly '2', oneOf ['4', '5'], oneOf (digitsFrom 0 5), exactly '.'],
  placesOf "172#1".toList ++ [oneOf (digitsFrom 6 9), exactly '.'],
  placesOf "172#2".toList ++ [oneOf (digitsFrom 0 9), exactly '.'],
  placesOf "172#3".toList ++ [oneOf (digitsFrom 0 1), exactly '.'],
  placesOf "100#6".toList ++ [oneOf (digitsFrom 4 9), exactly '.'],
  placesOf "100#".toList ++ [oneOf (digitsFrom 7 9), oneOf (digitsFrom 0 9), exactly '.'],
  placesOf "100#1".toList ++ [oneOf (digitsFrom 1 2), oneOf (digitsFrom 0 7), exactly '.']]

def matchReserved : Option (List Char) :=
  reservedPatterns.findSome? (matchPlaces · cs)

/-- The start of a text that shows a domain name: two words with a full stop between them. -/
def matchDomain : Option (List Char) :=
  let first := cs.takeWhile Text.isWordChar
  match first, cs.dropWhile Text.isWordChar with
  | _ :: _, '.' :: rest =>
    let second := rest.takeWhile Text.isWordChar
    if second.isEmpty then none else some (first ++ '.' :: second)
  | _, _ => none

end Vetting.Network

namespace Vetting.Network.Connections

/-- What reading alerts has gathered, with the ends of the last connection. -/
structure Seen where
  source : Option String := none
  target : Option String := none
  addresses : List String := []
  pairs : Table String (List (List String)) := []
deriving Inhabited

def alertOf? (line : String) : Option Doc := do
  let d ← Doc.parse? line
  let output ← (d.at "output").toOption
  let isFit ← (output.has "Network activity").toOption
  if isFit then some output else none

def host (s : String) : String := (Text.splitOn s ":").headD ""

/-- Notes the ends of a connection, as far as they can be read. -/
def noteEnds (s : Seen) (word : String) : Seen :=
  match Text.splitOn word "=" with
  | _ :: ends :: _ =>
    let parts := Text.splitOn ends "->"
    let source := host (parts.headD "")
    let s := { s with source := some source, addresses := addNew s.addresses source }
    match parts with
    | _ :: target :: _ => { s with target := some (host target), addresses := addNew s.addresses (host target) }
    | _ => s
  | _ => s

def noteAlert (s : Seen) (alert : Doc) : Except Fault Seen := do
  let .str text := alert | throw (.cause .noMember)
  let words := Text.splitOn text " "
  let containers := words.filter fun w => Text.contains w "container"
  let s := match words.find? fun w => Text.contains w "connection" with
    | some w => noteEnds s w
    | none => s
  match s.source, s.target with
  | some a, some b =>
    return { s with pairs := s.pairs.modify (a ++ ":" ++ b) [] fun known => addNew known containers }
  | _, _ => throw (.cause .unboundName)

def noteFile (s : Seen) (name : String) : Job Seen := do
  let text ← Job.readText ("/data/maloss/sysdig/python.latest.finding/" ++ name)
  (((Text.feedLines text).filterMap alertOf?).foldlM noteAlert s : Except Fault Seen)

def counts (s : Seen) : List (String × Nat) :=
  (s.pairs.map fun (k, cs) => (k, cs.length)).mergeSort fun a b => decide (b.2 ≤ a.2)

def run : Job Unit := do
  let files := (Text.feedLines (← Job.readText "files.txt")).map Text.strip
  let s ← files.foldlM noteFile {}
  Job.writeText "ip_list.txt" (Doc.arr ((counts s).map fun (k, n) => .arr [.str k, .int n])).write
  Job.printLine (Literal.list (s.addresses.map .text)).render
  Job.writeText "ipreport.txt" (Text.join "" (s.addresses.map (· ++ "\n")))

end Vetting.Network.Connections
