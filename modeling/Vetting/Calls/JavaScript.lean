import Vetting.Calls.Tree

/-!
# Calls in scripts

A walk over the tree of a script, each node before those below it, that reports calls and `new`
expressions. Class declarations and methods are not entered.
-/

namespace Vetting.Calls.JavaScript

/-- What a node of a script's tree carries. -/
structure Info where
  /-- The class of the node; several classes can have one type. -/
  kind : String
  type : String
  start : Position := ⟨0, 0⟩
  finish : Position := ⟨0, 0⟩
  name : Option String := none
deriving BEq, DecidableEq, Inhabited

abbrev ScriptTree := Tree Info

def Info.ofDoc (d : Doc) : Info :=
  let (start, finish) := match d.field? "loc" with
    | some (.arr [.int a, .int b, .int c, .int e]) => (⟨a, b⟩, ⟨c, e⟩)
    | _ => (⟨0, 0⟩, ⟨0, 0⟩)
  { kind := ((d.field? "c").bind Doc.str?).getD ""
    type := ((d.field? "type").bind Doc.str?).getD ""
    start, finish
    name := (d.field? "name").bind Doc.str? }

def ScriptTree.ofDoc (d : Doc) : ScriptTree := Tree.ofDoc Info.ofDoc (depth d) d

def slice {α : Type} (xs : List α) (first last : Int) : List α :=
  let place (i : Int) : Nat := if i < 0 then (i + xs.length).toNat else i.toNat
  (xs.take (place last)).drop (place first)

def before (cs : List Char) (column : Int) : List Char := slice cs 0 column

def after (cs : List Char) (column : Int) : List Char := slice cs column cs.length

def trimLast (column : Int) : List (List Char) → Except Fault (List (List Char))
  | [] => .error (.cause .outOfRange)
  | [l] => .ok [before l column]
  | l :: ls => (trimLast column ls).map (l :: ·)

variable (source : List Char) (t : ScriptTree)

/-- The characters between two places, in the lines of a text. -/
def sourceText (start finish : Position) : Except Fault (List Char) := do
  let lines := slice (Text.linesGo [] source) (start.row - 1) finish.row
  match ← trimLast finish.column lines with
  | [] => throw (.cause .outOfRange)
  | l :: ls => return (after l start.column ++ ls.flatten)

def textOf : Except Fault String :=
  match t.info? with
  | some i => (sourceText source i.start i.finish).map String.ofList
  | none => .error (.cause .noMember)

def identifier? : Option String :=
  match t.info? with
  | some i => if i.type = "Identifier" then some (i.name.getD "") else none
  | none => none

def nameOrText : Except Fault String :=
  match identifier? t with
  | some s => .ok s
  | none => textOf source t

def unknownBase : String := "dummy"

def target (isNew : Bool) (callee : ScriptTree) : Except Fault (Option String × String) := do
  match identifier? callee with
  | some name => return (none, name)
  | none =>
    if !isNew && (callee.info?.map Info.type) = some "MemberExpression" then
      let name ← nameOrText source ((callee.field? "property").getD .empty)
      let base ← nameOrText source ((callee.field? "object").getD .empty)
      return (some base, name)
    else return (some unknownBase, ← textOf source callee)

def callOf (isNew : Bool) (t : ScriptTree) : Except Fault Call := do
  let (base, name) ← target source isNew ((t.field? "callee").getD .empty)
  let args ← (t.itemsOf "arguments").mapM (textOf source)
  let text ← textOf source t
  match t.info? with
  | some i => return { base, name, args, text, start := i.start, finish := i.finish }
  | none => throw (.cause .noMember)

def isSkipped (i : Info) : Bool := i.kind = "ClassDeclaration" || i.kind = "MethodDefinition"

def enter (f : Filter) (calls : List Call) (t : ScriptTree) : Except Fault (List Call) :=
  let add (isNew : Bool) : Except Fault (List Call) := do
    let c ← callOf source isNew t
    return if f.keeps c then calls ++ [c] else calls
  match t.info?.map Info.kind with
  | some "CallExpression" => add false
  | some "NewExpression" => add true
  | _ => .ok calls

def gather (f : Filter) (t : ScriptTree) : Except Fault (List Call) :=
  t.walk isSkipped (enter source f) []

end Vetting.Calls.JavaScript
