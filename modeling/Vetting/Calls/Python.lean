import Vetting.Calls.Tree

/-!
# Calls in Python modules

A walk over the tree of a module notes which names were imported from which modules and reports the calls.
-/

namespace Vetting.Calls.Python

/-- What a node of a module's tree carries. -/
structure Info where
  kind : String
  line : Int := 0
  /-- The stretch of the source that the node covers, as places of characters. -/
  text : Option (Nat × Nat) := none
  start : Option Position := none
  finish : Option Position := none
deriving BEq, DecidableEq, Inhabited

abbrev ModuleTree := Tree Info

def Info.ofDoc (d : Doc) : Info :=
  { kind := ((d.field? "t").bind Doc.str?).getD ""
    line := ((d.field? "line").bind Doc.int?).getD 0
    text := match d.field? "text" with
      | some (.arr [.int s, .int e]) => some (s.toNat, e.toNat)
      | _ => none
    start := (d.field? "start").bind Position.ofDoc?
    finish := (d.field? "end").bind Position.ofDoc? }

def ModuleTree.ofDoc (d : Doc) : ModuleTree := Tree.ofDoc Info.ofDoc (depth d) d

variable (source : List Char)

def textOf (t : ModuleTree) : String :=
  match t.info?.bind Info.text with
  | some (s, e) => String.ofList ((source.drop s).take (e - s))
  | none => ""

def kindOf (t : ModuleTree) : String := (t.info?.map Info.kind).getD ""

/-- The names that were imported so far. -/
structure Imports where
  /-- Imported names and their modules; none for an import from the own package. -/
  modules : Table String (Option String) := []
  /-- Other names that were given to imported names. -/
  aliases : Table String String := []
deriving BEq, DecidableEq, Inhabited

namespace Imports

/-- Notes one imported name. The first import of a name counts. -/
def addName (module : Option String) (i : Imports) (t : ModuleTree) : Imports :=
  match t.wordOf? "name" with
  | none => i
  | some name =>
    let i := { i with modules := i.modules.setDefault name module }
    match t.wordOf? "asname" with
    | none => i
    | some other => { i with aliases := i.aliases.setDefault other name }

def add (i : Imports) (t : ModuleTree) : Imports :=
  (t.itemsOf "names").foldl (addName (t.wordOf? "module")) i

def resolve (i : Imports) (name : String) : Option String × String :=
  let name := (i.aliases.get? name).getD name
  ((i.modules.get? name).getD none, name)

end Imports

def target (i : Imports) (func : ModuleTree) : Option String × String :=
  if kindOf func = "Attribute" then
    let value := (func.field? "value").getD .empty
    let base := if kindOf value = "Name" then (value.wordOf? "id").getD "" else textOf source value
    (some base, (func.wordOf? "attr").getD "")
  else if kindOf func = "Name" then i.resolve ((func.wordOf? "id").getD "")
  else i.resolve (textOf source func)

/-- The call that a node makes. It has to have a place in the source. -/
def callOf (i : Imports) (t : ModuleTree) : Except Fault Call :=
  match t.info? with
  | some { start := some start, finish := some finish, .. } =>
    let (base, name) := target source i ((t.field? "func").getD .empty)
    .ok { base, name, args := (t.itemsOf "args" ++ t.itemsOf "keywords").map (textOf source)
          text := textOf source t, start, finish }
  | _ => .error (.cause .noMember)

structure Gathered where
  imports : Imports := {}
  calls : List Call := []
deriving BEq, DecidableEq, Inhabited

/-- What a node adds before the nodes below it are looked at. -/
def enter (f : Filter) (g : Gathered) (t : ModuleTree) : Except Fault Gathered :=
  if kindOf t = "ImportFrom" then .ok { g with imports := g.imports.add t }
  else if kindOf t = "Call" then do
    let c ← callOf source g.imports t
    return if f.keeps c then { g with calls := g.calls ++ [c] } else g
  else .ok g

def gather (f : Filter) (t : ModuleTree) : Except Fault Gathered :=
  t.walk (fun _ => false) (enter source f) {}

end Vetting.Calls.Python
