import Vetting.Document.Basic
import Vetting.Text.Blank

/-!
# Marked-up text

An element has a tag, attributes, the text before its first child, and children; the text after an element is
its tail.
-/

namespace Vetting.Markup

inductive Element where
  | node (tag : String) (attributes : List (String × String)) (text : Option String)
    (children : List Element) (tail : Option String)
deriving Inhabited, BEq

namespace Element

def tag : Element → String
  | node t _ _ _ _ => t

def attributes : Element → List (String × String)
  | node _ a _ _ _ => a

def text : Element → Option String
  | node _ _ t _ _ => t

def children : Element → List Element
  | node _ _ _ c _ => c

def tail : Element → Option String
  | node _ _ _ _ t => t

variable (e : Element)

def attribute? (k : String) : Option String := e.attributes.lookup k

def named (t : String) : List Element := e.children.filter fun c => c.tag = t

def child? (t : String) : Option Element := e.children.find? fun c => c.tag = t

mutual

def inside : Element → List Element
  | node _ _ _ cs _ => insideAll cs

def insideAll : List Element → List Element
  | [] => []
  | c :: cs => c :: (inside c ++ insideAll cs)

end

mutual

def content : Element → String
  | node _ _ t cs _ => t.getD "" ++ contentAll cs

def contentAll : List Element → String
  | [] => ""
  | c :: cs => content c ++ (tailText c ++ contentAll cs)

def tailText : Element → String
  | node _ _ _ _ t => t.getD ""

end

mutual

def toDoc : Element → Doc
  | node tag _ text cs _ =>
    .obj [("tag", .str tag), ("text", Doc.ofStr? text), ("children", .arr (toDocs cs))]

def toDocs : List Element → List Doc
  | [] => []
  | c :: cs => toDoc c :: toDocs cs

end

def withTail (t : Option String) : Element :=
  match e with
  | node tag a text cs _ => node tag a text cs t

end Element

/-! ## The parts of a marked-up text

A marked-up text is a row of tags and texts. Comments and instructions for other programs are left
out; references to characters are resolved.
-/

/-- A part of a marked-up text. -/
inductive Token where
  | opening (tag : String) (attributes : List (String × String)) (closed : Bool)
  | closing (tag : String)
  | text (s : String)
deriving BEq, DecidableEq, Inhabited

namespace Token

variable (c : Char) (cs : List Char)

def isNameStart : Bool := c.isAlpha || c = '_' || c = ':' || 0x80 ≤ c.toNat

def isNamePart : Bool := isNameStart c || c.isDigit || c = '-' || c = '.' || c = Char.ofNat 0xB7

def isGap : Bool := c = ' ' || c = '\t' || c = '\n' || c = '\r'

def isAllowed : Bool := isGap c || (0x20 ≤ c.toNat && c.toNat != 0xFFFE && c.toNat != 0xFFFF)

def readName : Option (List Char × List Char) :=
  match cs with
  | c :: _ => if isNameStart c then some (cs.takeWhile isNamePart, cs.dropWhile isNamePart) else none
  | [] => none

/-! ### References -/

def numberOf? (base : Nat) (cs : List Char) : Option Nat :=
  if cs.isEmpty then none
  else cs.foldlM (fun n c =>
    let v := if c.isDigit then c.toNat - 48
      else if 'a' ≤ c && c ≤ 'f' then c.toNat - 87
      else if 'A' ≤ c && c ≤ 'F' then c.toNat - 55 else 16
    if v < base then some (n * base + v) else none) 0

def reference? (name : List Char) : Option Char :=
  match name with
  | '#' :: 'x' :: cs => (numberOf? 16 cs).bind fun n => if n.isValidChar then some (Char.ofNat n) else none
  | '#' :: cs => (numberOf? 10 cs).bind fun n => if n.isValidChar then some (Char.ofNat n) else none
  | _ =>
    if name = "lt".toList then some '<' else if name = "gt".toList then some '>'
    else if name = "amp".toList then some '&' else if name = "quot".toList then some '"'
    else if name = "apos".toList then some (Char.ofNat 39) else none

def resolve : Option (List Char) :=
  match Text.splitChars ['&'] cs with
  | [] => some []
  | first :: pieces => do
    let rest ← pieces.mapM fun p => do
      let (name, after) ← Text.cutFirst ';' p
      let c ← reference? name
      if isAllowed c then some (c :: after) else none
    return first ++ rest.flatten

/-! ### Tags -/

/-- The attributes of a tag, whether the tag closes itself, and what follows it. -/
def readAttributes : Nat → List (String × String) → List Char → Option (List (String × String) × Bool × List Char)
  | 0, _, _ => none
  | fuel + 1, found, cs =>
    let after := cs.dropWhile isGap
    match after with
    | '>' :: rest => some (found.reverse, false, rest)
    | '/' :: '>' :: rest => some (found.reverse, true, rest)
    | _ =>
      if after.length = cs.length then none
      else do
        let (name, rest) ← readName after
        match rest.dropWhile isGap with
        | '=' :: rest =>
          match rest.dropWhile isGap with
          | q :: rest =>
            if q != '"' && q.toNat != 39 then none
            else
              let value := rest.takeWhile (· != q)
              match rest.dropWhile (· != q) with
              | [] => none
              | _ :: rest =>
                if value.contains '<' then none
                else
                  let value ← resolve (value.map fun c => if isGap c then ' ' else c)
                  let key := String.ofList name
                  if found.any fun p => p.1 == key then none
                  else readAttributes fuel ((key, String.ofList value) :: found) rest
          | [] => none
        | _ => none

def afterMark (mark : List Char) (cs : List Char) : Option (List Char × List Char) :=
  (Text.findChars mark cs).map fun n => (cs.take n, cs.drop (n + mark.length))

/-- What follows a declaration of the document's type, inner brackets included. -/
def afterDeclaration : Nat → List Char → Option (List Char)
  | _, [] => none
  | depth, '[' :: cs => afterDeclaration (depth + 1) cs
  | depth, ']' :: cs => afterDeclaration (depth - 1) cs
  | 0, '>' :: cs => some cs
  | depth, _ :: cs => afterDeclaration depth cs

/-- The tokens of a text whose ends of lines are unified. -/
def scanGo : Nat → List Token → List Char → Option (List Token)
  | 0, _, _ => none
  | _ + 1, found, [] => some found.reverse
  | fuel + 1, found, '<' :: cs =>
    match cs with
    | '!' :: '-' :: '-' :: cs => do
      let (inside, rest) ← afterMark "--".toList cs
      match rest with
      | '>' :: rest => if inside.all isAllowed then scanGo fuel found rest else none
      | _ => none
    | '!' :: '[' :: 'C' :: 'D' :: 'A' :: 'T' :: 'A' :: '[' :: cs => do
      let (inside, rest) ← afterMark "]]>".toList cs
      if inside.all isAllowed then scanGo fuel (.text (String.ofList inside) :: found) rest else none
    | '!' :: 'D' :: 'O' :: 'C' :: 'T' :: 'Y' :: 'P' :: 'E' :: cs => do
      let rest ← afterDeclaration 0 cs
      if found.any fun t => match t with | .text _ => false | _ => true then none else scanGo fuel found rest
    | '?' :: cs => do
      let (name, _) ← readName cs
      let (_, rest) ← afterMark "?>".toList cs
      if (String.ofList name).toLower = "xml" then none else scanGo fuel found rest
    | '/' :: cs => do
      let (name, rest) ← readName cs
      match rest.dropWhile isGap with
      | '>' :: rest => scanGo fuel (.closing (String.ofList name) :: found) rest
      | _ => none
    | cs => do
      let (name, rest) ← readName cs
      let (attributes, closed, rest) ← readAttributes (rest.length + 1) [] rest
      scanGo fuel (.opening (String.ofList name) attributes closed :: found) rest
  | fuel + 1, found, cs => do
    let raw := cs.takeWhile (· != '<')
    if Text.occursIn "]]>".toList raw || !raw.all isAllowed then none
    else
      let s ← resolve raw
      scanGo fuel (.text (String.ofList s) :: found) (cs.dropWhile (· != '<'))

def skipDeclaration : Option (List Char) :=
  match cs with
  | '<' :: '?' :: 'x' :: 'm' :: 'l' :: c :: rest =>
    if isGap c then (afterMark "?>".toList rest).map Prod.snd else some cs
  | _ => some cs

def scan : Option (List Token) := do
  let cs ← skipDeclaration cs
  scanGo (cs.length + 1) [] cs

end Token

/-! ## Strict marked-up text

Every tag that is opened is closed again, there is one outermost element, and names may be short
for names in a space of names.
-/

/-- An element whose end was not seen yet. -/
structure Frame where
  written : String
  tag : String
  attributes : List (String × String)
  text : Option String := none
  /-- The children so far, the last one first. -/
  children : List Element := []
  /-- The spaces of names by their short names. -/
  spaces : List (String × String)
deriving Inhabited

namespace Frame

/-- Adds a text, which belongs to the last child if there is one. -/
def addText (f : Frame) (s : String) : Frame :=
  if s.isEmpty then f
  else match f.children with
  | [] => { f with text := some (f.text.getD "" ++ s) }
  | c :: cs => { f with children := c.withTail (some (c.tail.getD "" ++ s)) :: cs }

def close (f : Frame) : Element := .node f.tag f.attributes f.text f.children.reverse none

def addChild (f : Frame) (e : Element) : Frame := { f with children := e :: f.children }

end Frame

namespace Xml

def initialSpaces : List (String × String) := [("xml", "http://www.w3.org/XML/1998/namespace")]

def spacesInside (attributes : List (String × String)) (outer : List (String × String)) : List (String × String) :=
  let own := attributes.filterMap fun (k, v) =>
    if k = "xmlns" then some ("", v)
    else if Text.startsWith k "xmlns:" then some (String.ofList (k.toList.drop 6), v) else none
  own ++ outer

def expand (spaces : List (String × String)) (name : String) (isTag : Bool) : Option String :=
  match Text.cutFirst ':' name.toList with
  | some (short, rest) =>
    match spaces.lookup (String.ofList short) with
    | some space => some ("\x7b" ++ space ++ "\x7d" ++ String.ofList rest)
    | none => none
  | none =>
    match isTag, spaces.lookup "" with
    | true, some space => some (if space.isEmpty then name else "\x7b" ++ space ++ "\x7d" ++ name)
    | _, _ => some name

def openFrame (outer : List (String × String)) (tag : String) (attributes : List (String × String)) :
    Option Frame := do
  let spaces := spacesInside attributes outer
  let kept := attributes.filter fun p => p.1 != "xmlns" && !Text.startsWith p.1 "xmlns:"
  let attributes ← kept.mapM fun (k, v) => do return (← expand spaces k false, v)
  return { written := tag, tag := ← expand spaces tag true, attributes, spaces }

/-- Builds the outermost element; the frames are the open elements, innermost first. -/
def build : List Frame → Option Element → List Token → Option Element
  | [], root, [] => root
  | _ :: _, _, [] => none
  | [], root, .text s :: ts => if s.toList.all Token.isGap then build [] root ts else none
  | f :: fs, root, .text s :: ts => build (f.addText s :: fs) root ts
  | [], _, .closing _ :: _ => none
  | f :: fs, root, .closing t :: ts =>
    if f.written != t then none
    else
      match fs with
      | [] => build [] (some f.close) ts
      | g :: gs => build (g.addChild f.close :: gs) root ts
  | [], some _, .opening .. :: _ => none
  | [], none, .opening t a closed :: ts => do
    let f ← openFrame initialSpaces t a
    if closed then build [] (some f.close) ts else build [f] none ts
  | g :: gs, root, .opening t a closed :: ts => do
    let f ← openFrame g.spaces t a
    if closed then build (g.addChild f.close :: gs) root ts else build (f :: g :: gs) root ts

def parse? (s : String) : Option Element := do
  build [] none (← Token.scan (Text.unifyLineEnds s.toList))

def parse (s : String) : Except Fault Element :=
  match parse? s with
  | some e => .ok e
  | none => .error (.cause .badXml)

end Xml

end Vetting.Markup

/-!
## Lenient marked-up text

Case does not matter, values need no quotes, end tags may be missing or stray, and unknown references stand
for themselves.
-/

namespace Vetting.Markup.Page

/-! ### Tags -/

def reference? (name : List Char) : Option Char :=
  if name = "nbsp".toList then some (Char.ofNat 0xA0) else Token.reference? name

def resolve (cs : List Char) : List Char :=
  match Text.splitChars ['&'] cs with
  | [] => []
  | first :: pieces =>
    first ++ pieces.flatMap fun p =>
      match (Text.cutFirst ';' p).bind fun (name, after) => (reference? name).map fun c => c :: after with
      | some cs => cs
      | none => '&' :: p

def lower (cs : List Char) : String := String.ofList (cs.map Char.toLower)

def endsName (c : Char) : Bool := Token.isGap c || c = '>' || c = '/' || c = '='

def readValue (cs : List Char) : List Char × List Char :=
  match cs with
  | q :: rest =>
    if q = '"' || q.toNat = 39 then (rest.takeWhile (· != q), (rest.dropWhile (· != q)).drop 1)
    else (cs.takeWhile fun c => !(Token.isGap c || c = '>'), cs.dropWhile fun c => !(Token.isGap c || c = '>'))
  | [] => ([], [])

/-- The attributes of a tag, the first of each name, and what follows it. -/
def readAttributes : Nat → List (String × String) → List Char → List (String × String) × List Char
  | 0, found, cs => (found.reverse, cs)
  | fuel + 1, found, cs =>
    match cs.dropWhile fun c => Token.isGap c || c = '/' || c = '=' with
    | [] => (found.reverse, [])
    | '>' :: rest => (found.reverse, rest)
    | cs =>
      let name := lower (cs.takeWhile fun c => !endsName c)
      let rest := cs.dropWhile fun c => !endsName c
      let (value, rest) := match rest.dropWhile Token.isGap with
        | '=' :: after => readValue (after.dropWhile Token.isGap)
        | _ => ([], rest)
      let found := if found.any fun p => p.1 == name then found
        else (name, String.ofList (resolve value)) :: found
      readAttributes fuel found rest

def rawElements : List String := ["script", "style"]

/-- What stands before an end tag, in small letters, and the rest from there. -/
def cutRaw (tag : String) : List Char → List Char → List Char × List Char
  | before, [] => (before.reverse, [])
  | before, c :: cs =>
    if c = '<' && (lower ((c :: cs).take (tag.length + 2))) = "</" ++ tag then (before.reverse, c :: cs)
    else cutRaw tag (c :: before) cs

def skipTo (mark : String) (cs : List Char) : List Char :=
  ((Token.afterMark mark.toList cs).map Prod.snd).getD []

def scanGo : Nat → List Token → List Char → List Token
  | 0, found, _ => found.reverse
  | _ + 1, found, [] => found.reverse
  | fuel + 1, found, '<' :: cs =>
    match cs with
    | '!' :: '-' :: '-' :: cs => scanGo fuel found (skipTo "-->" cs)
    | '!' :: cs => scanGo fuel found (skipTo ">" cs)
    | '?' :: cs => scanGo fuel found (skipTo ">" cs)
    | '/' :: cs => scanGo fuel (.closing (lower (cs.takeWhile fun c => !endsName c)) :: found) (skipTo ">" cs)
    | c :: _ =>
      if c.isAlpha then
        let tag := lower (cs.takeWhile fun c => !endsName c)
        let (attributes, rest) := readAttributes (cs.length + 1) [] (cs.dropWhile fun c => !endsName c)
        let found := .opening tag attributes false :: found
        if rawElements.contains tag then
          let (raw, rest) := cutRaw tag [] rest
          scanGo fuel (.text (String.ofList raw) :: found) rest
        else scanGo fuel found rest
      else scanGo fuel (.text "<" :: found) cs
    | [] => (.text "<" :: found).reverse
  | fuel + 1, found, cs =>
    scanGo fuel (.text (String.ofList (resolve (cs.takeWhile (· != '<')))) :: found) (cs.dropWhile (· != '<'))

def scan (s : String) : List Token := scanGo (s.length + 1) [] s.toList

/-! ### Elements -/

def emptyElements : List String :=
  ["area", "base", "br", "col", "embed", "hr", "img", "input", "link", "meta", "param", "source", "track", "wbr"]

/-- The elements that the start of another ends. -/
def endedBy (tag : String) : List String :=
  if tag = "tr" then ["td", "th", "tr"]
  else if tag = "td" || tag = "th" then ["td", "th"]
  else if tag = "li" then ["li"]
  else if tag = "p" then ["p"]
  else if tag = "a" then ["a"]
  else if tag = "option" then ["option"] else []

def closeOne : List Frame → List Frame
  | f :: g :: fs => g.addChild f.close :: fs
  | fs => fs

def closeWhile (tags : List String) : Nat → List Frame → List Frame
  | 0, fs => fs
  | _ + 1, [] => []
  | fuel + 1, f :: fs => if tags.contains f.tag then closeWhile tags fuel (closeOne (f :: fs)) else f :: fs

def closeTo (tag : String) : Nat → List Frame → List Frame
  | 0, fs => fs
  | _ + 1, [] => []
  | fuel + 1, f :: fs =>
    if f.tag = tag then closeOne (f :: fs) else closeTo tag fuel (closeOne (f :: fs))

def take (fs : List Frame) (t : Token) : List Frame :=
  match fs, t with
  | [], _ => []
  | f :: fs, .text s => f.addText s :: fs
  | fs, .closing tag =>
    if fs.dropLast.any fun f => f.tag = tag then closeTo tag fs.length fs else fs
  | fs, .opening tag attributes _ =>
    match closeWhile (endedBy tag) fs.length fs with
    | [] => []
    | f :: fs =>
      let new : Frame := { written := tag, tag, attributes, spaces := [] }
      if emptyElements.contains tag then f.addChild new.close :: fs else new :: f :: fs

def closeAll : Nat → List Frame → List Frame
  | 0, fs => fs
  | fuel + 1, fs => closeAll fuel (closeOne fs)

def elements (s : String) : List Element :=
  let start : Frame := { written := "", tag := "", attributes := [], spaces := [] }
  let fs := (scan s).foldl take [start]
  match closeAll fs.length fs with
  | f :: _ => f.close.inside
  | [] => []

def hasClass (classes : List String) (e : Element) : Bool :=
  match e.attribute? "class" with
  | some s => classes.contains s || (Text.words s).any classes.contains
  | none => false

end Vetting.Markup.Page
