import Vetting.Listing.Group
import Vetting.Taint.Entries

/-!
# Functions with dots

A function is written with dots between the parts of its full name, perhaps with its arguments in brackets.
-/

namespace Vetting.Listing.Dotted

def read (text : String) : Except Halt Named :=
  match Text.splitOn text "(" with
  | _ :: _ :: _ :: _ =>
    .error { printed := "wrong api " ++ text ++ " with two '(', this shouldn't happen!\n", fault := .exit (.number 1) }
  | parts =>
    let full := parts.headD ""
    match Text.cutLast '.' full.toList with
    | some (base, name) => .ok { base := some (String.ofList base), name := String.ofList name, fullName := full }
    | none => .ok { name := full, fullName := full }

def form : Form := { groups := [.sources, .sinks, .sourceSinks, .dangers], read }

def writeSettings : Job Unit := form.writeSettings "../astgen_python_smt.config"

def writeNameSettings : Job Unit := form.writeSettings "../astgen_python_smt.func_only.config" "\nfunc_only: true"

variable (nameOnly : Bool)

/-- Adds a function to the words of the analysis: dangerous functions count as sources. -/
def addWord (words : List String × List String) (l : Listed) : Except Halt (List String × List String) :=
  let word := if nameOnly then l.named.name else l.named.fullName
  match form.group? l.column with
  | none => .error (unexpectedColumn l.column)
  | some .sinks => .ok (words.1, addNew words.2 word)
  | some _ => .ok (words.1 ++ [word], words.2)

def triggerWords (s : Sheet) : Except Halt (List String × List String) :=
  (form.functions s).foldlM (fun words l => do addWord nameOnly words (← l)) ([], [])

def wordsDoc (words : List String × List String) : Doc :=
  .obj [("sources", .arr (words.1.map .str)), ("sinks", .obj (words.2.map fun w => (w, .obj [])))]

def wordsFile : String := "/home/maloss/Desktop/malenv/pyt/pyt/vulnerability_definitions/all_trigger_words.pyt"

def writeWords : Job Unit := do
  let s := Sheet.ofText (← Job.readText "sensitive_apis.csv")
  let words ← required (triggerWords nameOnly s)
  Job.writeText wordsFile ((wordsDoc words).writeIndented 4 0)

end Vetting.Listing.Dotted

/-!
## Functions with classes

A function is written behind its class and two colons, and is followed by the numbers of the arguments that
matter, each behind a colon.
-/

namespace Vetting.Listing.Scoped

def cutArguments (text : String) : String × List String :=
  match Text.splitOn text ":" with
  | [] => ("", [])
  | name :: arguments => (name, arguments)

def read (text : String) : Except Halt Named :=
  match Text.splitOn text "::" with
  | [_] =>
    let (name, arguments) := cutArguments text
    .ok { name, fullName := name, arguments }
  | [base, rest] =>
    let (name, arguments) := cutArguments rest
    .ok { base := some base, name, fullName := base ++ "::" ++ name, arguments }
  | _ => .error (.ofCause .badValue)

def form : Form := { groups := [.sources, .sinks, .dangers], read }

def writeSettings : Job Unit := form.writeSettings "../astgen_php_smt.config"

def classField (n : Named) : List (String × Doc) :=
  match n.base with
  | some b => if b.isEmpty then [] else [("instanceof", .str b)]
  | none => []

/-- The entry of a source; arguments cannot be told apart in sources. -/
def sourceEntry (n : Named) : Except Halt Doc :=
  if !n.arguments.isEmpty then
    .error (.of (.failure ("Cannot handle api_args for Sources now: "
      ++ (Literal.list (n.arguments.map .text)).render)))
  else .ok (.obj ([("name", Doc.str n.name), ("is_function", .bool true), ("language", .str "php")] ++ classField n))

def parameterOf (a : String) : Except Halt Doc :=
  match Text.intOf? a with
  | some k => .ok (.obj [("id", .int k)])
  | none => .error (.ofCause .badValue)

/-- The entry of a sink; one without arguments that matter has none. -/
def sinkEntry (n : Named) : Except Halt (Option Doc) := do
  if n.arguments.isEmpty then return none
  let parameters ← n.arguments.mapM parameterOf
  return some (.obj ([("name", Doc.str n.name), ("language", .str "php"), ("attack", .str "maloss_sink"),
    ("cwe", .str "CWE_89")] ++ classField n ++ [("parameters", Doc.arr parameters)]))

def addEntry (entries : List Doc × List Doc) (l : Listed) : Except Halt (List Doc × List Doc) := do
  match form.group? l.column with
  | none => throw (unexpectedColumn l.column)
  | some .sources => return (entries.1 ++ [← sourceEntry l.named], entries.2)
  | some _ => return (entries.1, entries.2 ++ (← sinkEntry l.named).toList)

def entriesOf (s : Sheet) : Except Halt (List Doc × List Doc) :=
  (form.functions s).foldlM (fun entries l => do addEntry entries (← l)) ([], [])

/-- Writes the entries of the sheet after those that the checker has. -/
def writeEntries : Job Unit := do
  let known ← Job.readDoc "progpilot_sources.json"
  let knownSinks ← Job.readDoc "progpilot_sinks.json"
  let s := Sheet.ofText (← Job.readText "sensitive_apis.csv")
  let entries ← required (entriesOf s)
  Taint.Entries.writeExtended known knownSinks entries "../static_php_sources.json" "../static_php_sinks.json"

end Vetting.Listing.Scoped
