import Vetting.Language
import Vetting.Literal.Access

/-!
# Rows of package lists

A list of packages is a table with a row for each package. How often a package was downloaded and
who its authors are stand in single cells, written as literals.
-/

namespace Vetting.Package

abbrev Row := Table String (Option String)

namespace Row

def cell (r : Row) (column : String) : Except Fault (Option String) :=
  match r.get? column with
  | some v => .ok v
  | none => .error (.missingKey (Text.quoted column))

def literal (r : Row) (column : String) : Except Fault Literal := do
  match ← r.cell column with
  | some s => Literal.parse s
  | none => throw (.cause .badValue)

/-- The downloads of the given name, or else the overall ones or those of the last month. -/
def downloads (r : Row) (field : Option String) : Except Fault Literal := do
  let some s ← r.cell "downloads" | return .none
  if s.isEmpty then return .none
  let stats ← Literal.parse s
  let overall ← stats.has "overall"
  let recent ← stats.has "last_month"
  if !overall && !recent then
    let _ ← r.cell "package name"
    let _ ← r.cell "language"
    return .none
  match field with
  | none => if overall then stats.at "overall" else stats.at "last_month"
  | some f =>
    if f = "overall" && overall then stats.at "overall"
    else if f = "last_month" && recent then stats.at "last_month"
    else return .none

def isAddressChar (c : Char) : Bool := Text.isWordChar c || c = '.' || c = '-'

/-- The mail addresses in a text. The first argument is the run just before the rest, backwards, the second the
address that is being read, if one is. -/
def addressesGo : List Char → Option (List Char) → List Char → List (List Char)
  | _, none, [] => []
  | _, some a, [] => [a.reverse]
  | run, none, c :: cs =>
    if isAddressChar c then addressesGo (c :: run) none cs
    else if c = '@' && !run.isEmpty && cs.head?.any isAddressChar then
      addressesGo [] (some ('@' :: run)) cs
    else addressesGo [] none cs
  | run, some a, c :: cs =>
    if isAddressChar c then addressesGo run (some (c :: a)) cs
    else a.reverse :: addressesGo [] none cs

def addresses (s : String) : List String :=
  (addressesGo [] none s.toList).map String.ofList

def addAddresses (found : List Literal) (x : Literal) : Except Fault (List Literal) := do
  return (addresses (← x.asText)).foldl (fun xs a => if Literal.isIn (.text a) xs then xs else xs ++ [.text a]) found

def addPeople (found : List Literal) (people : List Literal) : Except Fault (List Literal) :=
  people.foldlM (fun found p => do
    if ← p.has "email" then Literal.insert found (← p.at "email") else return found) found

/-- The mail addresses of the authors in a row, each once, in order. -/
def authorAddresses (r : Row) (language : Language) : Except Fault (List Literal) := do
  let authors ← r.literal "author"
  let mut found := []
  match language with
  | .python =>
    for k in ["author_email", "maintainer"] do
      let v ← authors.find k
      if v.truthy then found ← addAddresses found v
  | .javascript =>
    let maintainers ← authors.find "maintainers"
    if maintainers.truthy then
      for m in ← maintainers.items do
        if !m.isDict then found ← addAddresses found m
    let user ← authors.find "npmUser"
    if user.truthy then found ← addAddresses found user
    let author ← authors.find "author"
    if author.truthy && !author.isDict then found ← addAddresses found author
  | .ruby =>
    let owners ← authors.find "owners"
    if owners.truthy then found ← addPeople found (← owners.items)
  | .php =>
    let versions ← authors.find "authors"
    if versions.truthy then
      for (_, people) in ← versions.entries do
        found ← addPeople found (← people.items)
  | .java =>
    let developers ← authors.find "developers"
    if developers.truthy then found ← addPeople found (← developers.items)
  | l => throw (.failure ("Unhandled language: " ++ l.word))
  let _ ← r.cell "package name"
  return found

end Row

end Vetting.Package
