import Vetting.Api.Report
import Vetting.Literal.Lexeme

/-!
# Trees of sources

A parser turns a source into a tree. Each node has a kind, perhaps a place, and named fields that
hold nodes, lists of nodes, or words.
-/

namespace Vetting.Calls

/-- A line, counted from one, and a column, counted from zero. -/
structure Position where
  row : Int
  column : Int
deriving BEq, DecidableEq, Inhabited

/-- A tree whose nodes carry what `ι` says, or a part of one. -/
inductive Tree (ι : Type) where
  | node (info : ι) (fields : List (String × Tree ι))
  | list (items : List (Tree ι))
  | word (s : String)
  | number (n : Int)
  | empty
deriving Inhabited

namespace Tree

variable {ι : Type}

variable (t : Tree ι) (k : String)

def field? : Option (Tree ι) :=
  match t with
  | .node _ fs => fs.lookup k
  | _ => none

def wordOf? : Option String :=
  match t.field? k with
  | some (.word s) => some s
  | _ => none

def itemsOf : List (Tree ι) :=
  match t.field? k with
  | some (.list ts) => ts
  | _ => []

def info? : Tree ι → Option ι
  | .node i _ => some i
  | _ => none

mutual

def nodes : Tree ι → List (Tree ι)
  | .node i fs => .node i fs :: nodesOfFields fs
  | .list ts => nodesOfItems ts
  | _ => []

def nodesOfFields : List (String × Tree ι) → List (Tree ι)
  | [] => []
  | (_, t) :: fs => nodes t ++ nodesOfFields fs

def nodesOfItems : List (Tree ι) → List (Tree ι)
  | [] => []
  | t :: ts => nodes t ++ nodesOfItems ts

end

section Walk

variable {β : Type} {m : Type → Type} [Monad m] (skips : ι → Bool) (enter : β → Tree ι → m β)

mutual

def walk : Tree ι → β → m β
  | .node i fs, b =>
    if skips i then pure b
    else do
      let b ← enter b (.node i fs)
      walkFields fs b
  | .list ts, b => walkItems ts b
  | _, b => pure b

def walkFields : List (String × Tree ι) → β → m β
  | [], b => pure b
  | (_, t) :: fs, b => do
    let b ← walk t b
    walkFields fs b

def walkItems : List (Tree ι) → β → m β
  | [], b => pure b
  | t :: ts, b => do
    let b ← walk t b
    walkItems ts b

end

end Walk

end Tree

def pairsOf : List Doc → List (String × Doc)
  | .arr [.str k, v] :: ds => (k, v) :: pairsOf ds
  | _ :: ds => pairsOf ds
  | [] => []

def Position.ofDoc? : Doc → Option Position
  | .arr [.int r, .int c] => some ⟨r, c⟩
  | _ => none

/-- The tree of a document, to a depth; `read` reads what a node carries. -/
def Tree.ofDoc {ι : Type} (read : Doc → ι) : Nat → Doc → Tree ι
  | 0, _ => .empty
  | fuel + 1, d =>
    match d with
    | .obj fs =>
      .node (read d) ((pairsOf ((fs.lookup "f").map Doc.itemsOf |>.getD [])).map fun (k, v) =>
        (k, Tree.ofDoc read fuel v))
    | .arr xs => .list (xs.map (Tree.ofDoc read fuel))
    | .str s => .word s
    | .int n => .number n
    | _ => .empty

mutual

def depth : Doc → Nat
  | .arr xs => depthOfItems xs + 1
  | .obj fs => depthOfFields fs + 1
  | _ => 1

def depthOfItems : List Doc → Nat
  | [] => 0
  | d :: ds => max (depth d) (depthOfItems ds)

def depthOfFields : List (String × Doc) → Nat
  | [] => 0
  | (_, d) :: fs => max (depth d) (depthOfFields fs)

end

/-!
## Calls and which of them count

A call is reported with its base, name, arguments, text and place, if the settings list its function.
-/

structure Call where
  /-- The object, class or module that the function is taken from. -/
  base : Option String
  name : String
  args : List String
  text : String
  start : Position
  finish : Position
deriving BEq, DecidableEq, Inhabited

namespace Call

def fullName (c : Call) : String :=
  match c.base with
  | none => c.name
  | some b => b ++ "." ++ c.name

def bareName (c : Call) : String :=
  match c.base with
  | none => c.name
  | some b => if b.isEmpty then c.name else "." ++ c.name

end Call

/-- The names that are looked for; all if none are given. -/
structure Filter where
  names : Option (List String) := none
  /-- Compare names without their base. -/
  funcOnly : Bool := false
deriving BEq, DecidableEq, Inhabited

namespace Filter

def nameOf (funcOnly : Bool) (api : Api.Node) : String :=
  if funcOnly then (if api.baseType.isEmpty then api.name else "." ++ api.name) else api.fullName

def ofConfig (c : Api.Config) : Filter :=
  { names := some ((c.apis.filter fun a => a.kind = .functionRef).map (nameOf c.funcOnly))
    funcOnly := c.funcOnly }

def ofConfig? : Option Api.Config → Filter
  | none => {}
  | some c => ofConfig c

def checkName (f : Filter) (c : Call) : String := if f.funcOnly then c.bareName else c.fullName

def keeps (f : Filter) (c : Call) : Bool :=
  match f.names with
  | none => true
  | some ns => ns.contains (f.checkName c)

end Filter

end Vetting.Calls

/-!
## Why a Python module cannot be read

A module is refused for its layout if lines are indented in a way that no block explains, and for its form
otherwise.
-/

namespace Vetting.Calls.Layout

/-- A logical line: its indent, its first word, and whether it ends with a colon. -/
structure Line where
  indent : Nat
  head : String
  opens : Bool
deriving BEq, DecidableEq, Inhabited

def indentGo : Nat → List Char → Nat × List Char
  | n, ' ' :: cs => indentGo (n + 1) cs
  | n, '\t' :: cs => indentGo ((n / 8 + 1) * 8) cs
  | _, '\x0c' :: cs => indentGo 0 cs
  | n, cs => (n, cs)

/-- Reads the rest of a logical line: whether a colon ends it, and what follows, if all is closed. -/
def body : Nat → Nat → Bool → List Char → Option (Bool × List Char)
  | 0, _, _, _ => none
  | fuel + 1, depth, colon, cs =>
    match cs with
    | [] => if depth = 0 then some (colon, []) else none
    | '\\' :: '\n' :: rest => body fuel depth colon rest
    | c :: rest =>
      if c = '\n' then (if depth = 0 then some (colon, rest) else body fuel depth colon rest)
      else if c = '#' then body fuel depth colon (rest.dropWhile (· != '\n'))
      else if c = ' ' || c = '\t' then body fuel depth colon rest
      else if Literal.startsQuoted cs then
        match Literal.readQuoted cs with
        | some (_, _, rest) => body fuel depth false rest
        | none => none
      else if Text.isWordChar c then body fuel depth false (cs.dropWhile Text.isWordChar)
      else if c = '(' || c = '[' || c = '{' then body fuel (depth + 1) false rest
      else if c = ')' || c = ']' || c = '}' then
        if depth = 0 then none else body fuel (depth - 1) false rest
      else body fuel depth (c = ':') rest

/-- The logical lines up to the first that is not complete. -/
def linesOf : Nat → List Char → List Line
  | 0, _ => []
  | fuel + 1, cs =>
    let (indent, rest) := indentGo 0 cs
    match rest with
    | [] => []
    | '\n' :: rest => linesOf fuel rest
    | '#' :: rest => linesOf fuel (rest.dropWhile (· != '\n'))
    | rest =>
      match body (rest.length + 1) 0 false rest with
      | none => []
      | some (opens, after) =>
        ⟨indent, String.ofList (rest.takeWhile Text.isWordChar), opens⟩ :: linesOf fuel after

def blockWords : List String := [
  "def", "class", "if", "elif", "else", "for", "while", "try", "except", "finally", "with", "async",
  "match", "case"]

/-- Whether a line is indented as no block explains: `stack` are the indents of the open blocks, innermost
first, and `expects` says that one has to start. -/
def isBroken : List Nat → Bool → Bool → List Line → Bool
  | _, expects, _, [] => expects
  | stack, expects, unfinished, l :: ls =>
    let top := stack.headD 0
    let next (stack : List Nat) : Bool :=
      isBroken stack (l.opens && blockWords.contains l.head) (!l.opens && blockWords.contains l.head) ls
    if top < l.indent then
      if expects then next (l.indent :: stack) else !unfinished
    else if expects then true
    else
      let stack := stack.dropWhile fun n => l.indent < n
      if stack.headD 0 = l.indent then next stack else true

def refusal (source : List Char) : Fault :=
  let source := Text.unifyLineEnds source
  if source.contains (Char.ofNat 0) then .cause .unparsable
  else if isBroken [0] false false (linesOf (source.length + 1) source) then .cause .badIndent
  else .cause .unparsable

end Vetting.Calls.Layout
