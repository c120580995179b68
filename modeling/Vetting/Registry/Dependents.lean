import Vetting.Command.Commands
import Vetting.Markup
import Vetting.Network

/-!
# Dependents of packages

The packages that depend on a package, directly or through others, are asked for breadth first.
-/

namespace Vetting.Registry.Dependents

open Vetting.Markup

def ofGem (name : String) : Job (List Doc) := do
  let found ← Job.fetchDoc ("https://rubygems.org/api/v1/gems/" ++ name ++ "/reverse_dependencies.json")
  let count ← found.size
  Job.printLine (name ++ " has " ++ Text.ofNat count ++ " dependents (" ++ found.shown ++ ")")
  (← found.items).mapM fun d => d.asKey

/-- The packages that a page names, and the address of the next page. -/
def ofPage (page : String) : Except Fault (List String × Option (Option String)) := do
  let links := (Page.elements page).filter fun e => e.tag = "a"
  let inner := links.filter fun e => e.attribute? "target" == some "_self"
  let names ← inner.mapM fun e =>
    match e.attribute? "href" with
    | none => Except.error (Fault.cause .wrongType)
    | some h => .ok (if Text.contains h "/package/" then (Text.splitOn h "/package/").getLast? else none)
  let next := (links.filter fun e => e.content = "Next Page").head?.map fun e => e.attribute? "href"
  return (distinct (names.filterMap id), next)

def morePages (base : String) : Nat → List String → Option (Option String) → Job (List String)
  | 0, names, _ => return names
  | _ + 1, names, none => return names
  | fuel + 1, names, some next => do
    let url ← Network.Address.join base (next.getD "")
    let (more, next) ← ofPage (← Job.fetchText url)
    morePages base fuel (names ++ more.filter fun n => !names.contains n) next

def ofPages (name : String) : Job (List Doc) := do
  let base := "https://www.npmjs.com/browse/depended/" ++ name
  let (names, next) ← ofPage (← Job.fetchText base)
  if names.isEmpty then return []
  return (← morePages base 10000 names next).map .str

/-- Asks breadth first: the packages that were asked for, each once. -/
def search (ask : String → Job (List Doc)) : Nat → List Doc → List Doc → Job (List Doc)
  | 0, found, _ => return found
  | _ + 1, found, [] => return found
  | fuel + 1, found, d :: queue => do
    if found.any (Doc.same d) then search ask fuel found queue
    else
      let found := found ++ [d]
      let new ← ask d.shown
      let fresh := new.foldl (fun (acc : List Doc) x => if (found ++ acc).any (Doc.same x) then acc else acc ++ [x]) []
      search ask fuel found (queue ++ fresh)

def form : Command.Form := { items := [Command.place "name", Command.option "outfile" "o"] }

def run (ask : String → Job (List Doc)) (argv : List String) : Job Unit := do
  let values ← Command.read form argv
  let name := ((values.get? "name").getD .null).strD ""
  let found ← search ask 1000000 [] [.str name]
  let found := found.filter fun d => !Doc.same d (.str name)
  Job.printLine ("there are " ++ Text.ofNat found.length ++ " dependents for package name " ++ name)
  let outfile := ((values.get? "outfile").getD .null).strD ""
  if !outfile.isEmpty then Job.writePretty outfile (.arr found)

end Vetting.Registry.Dependents
