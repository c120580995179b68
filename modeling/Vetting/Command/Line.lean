import Vetting.Registry.Client

/-!
# Command lines

Options, which may be shortened as long as they stay unique, and arguments by place. A line that does not fit
ends the program with code 2, a request for help with code 0.
-/

namespace Vetting.Command

open Text

/-- How many words an option takes. -/
inductive Arity where
  | flag
  | one
  | several
  /-- One word, which may be given several times. -/
  | collected
  | help
deriving BEq, DecidableEq, Inhabited

/-- What a word must be. -/
inductive ValueKind where
  | text
  | number
  | oneOf (words : List String)
deriving BEq, DecidableEq, Inhabited

/-- An option, or an argument by place if it has no names. -/
structure Item where
  names : List String
  dest : String
  arity : Arity := .one
  kind : ValueKind := .text
  default : Doc := .null
  required : Bool := false
  /-- Options of one group exclude each other. -/
  group : Option Nat := none
deriving Inhabited, BEq

/-- The options and arguments of a program or a command. -/
structure Form where
  items : List Item
  /-- The groups of which one option must be given. -/
  requiredGroups : List Nat := []
deriving Inhabited, BEq

namespace Form

def helpItem : Item := { names := ["-h", "--help"], dest := "help", arity := .help }

def options (f : Form) : List Item := helpItem :: f.items.filter fun i => !i.names.isEmpty

def places (f : Form) : List Item := f.items.filter fun i => i.names.isEmpty

def names (f : Form) : List (String × Item) :=
  f.options.flatMap fun i => i.names.map fun n => (n, i)

end Form

def misuse {α : Type} : Except Fault α := .error (.exit (.number 2))

/-! ## Words -/

inductive Word where
  /-- An option, if known, its name, and its value if one is joined, perhaps with an equals sign. -/
  | option (item : Option Item) (name : String) (equals : Bool) (value : Option String) (raw : String)
  | plain (s : String)
  /-- Two dashes, after which no options come. -/
  | dashes
deriving Inhabited

def Word.raw : Word → String
  | .option _ _ _ _ raw => raw
  | .plain s => s
  | .dashes => "--"

def Word.isOption : Word → Bool
  | .option .. => true
  | _ => false

def isNegative (s : String) : Bool :=
  match s.toList with
  | '-' :: cs =>
    let whole := cs.takeWhile isDecimal
    match cs.dropWhile isDecimal with
    | [] => !whole.isEmpty
    | '.' :: ds => !ds.isEmpty && ds.all isDecimal
    | _ => false
  | _ => false

def cutEquals (s : String) : Option (String × String) :=
  (cutFirst '=' s.toList).map fun (a, b) => (String.ofList a, String.ofList b)

variable (f : Form) (st : State)

def candidates (s : String) : List (Item × String × Bool × Option String) :=
  if startsWith s "--" then
    let (start, value) := match cutEquals s with
      | some (a, b) => (a, some b)
      | none => (s, none)
    f.names.filterMap fun (n, i) =>
      if startsWith n start then some (i, n, value.isSome, value) else none
  else
    let (start, value) := match cutEquals s with
      | some (a, b) => (a, some b)
      | none => (s, none)
    let short := String.ofList (s.toList.take 2)
    let joined := String.ofList (s.toList.drop 2)
    f.names.filterMap fun (n, i) =>
      if n = short then some (i, n, false, some joined)
      else if startsWith n start then some (i, n, value.isSome, value)
      else none

def classify (s : String) : Except Fault Word :=
  if !startsWith s "-" then .ok (.plain s)
  else match f.names.lookup s with
    | some i => .ok (.option (some i) s false none s)
    | none =>
      if s = "-" then .ok (.plain s)
      else
        let joined? := (cutEquals s).bind fun (n, v) => (f.names.lookup n).map fun i => (i, n, v)
        match joined? with
        | some (i, n, v) => .ok (.option (some i) n true (some v) s)
        | none =>
          match candidates f s with
          | [(i, n, e, v)] => .ok (.option (some i) n e v s)
          | _ :: _ :: _ => misuse
          | [] =>
            if isNegative s || s.toList.contains ' ' then .ok (.plain s)
            else .ok (.option none s false none s)

def classifyAll (f : Form) : List String → Except Fault (List Word)
  | [] => .ok []
  | "--" :: ss => .ok (.dashes :: ss.map .plain)
  | s :: ss => do
    let w ← classify f s
    return w :: (← classifyAll f ss)

def valueOf (k : ValueKind) (s : String) : Except Fault Doc :=
  match k with
  | .text => .ok (.str s)
  | .number => match intOf? s with
    | some n => .ok (.int n)
    | none => misuse
  | .oneOf words => if words.contains s then .ok (.str s) else misuse

/-- What reading has gathered so far. -/
structure State where
  values : Table String Doc
  seen : List String := []
  /-- The options that were given a value other than the one they have anyway. -/
  given : List String := []
  places : List Item := []
  extra : Bool := false
deriving Inhabited

def take (i : Item) (words : List String) : Except Fault State := do
  let value ← match i.arity, words with
    | .help, _ => throw (.exit (.number 0))
    | .flag, _ => pure (Doc.bool true)
    | .several, ss => do pure (Doc.arr (← ss.mapM (valueOf i.kind)))
    | _, s :: _ => valueOf i.kind s
    | _, [] => misuse
  let st := { st with seen := i.dest :: st.seen }
  let isNew := !Doc.same value i.default
  let st := if isNew then { st with given := i.dest :: st.given } else st
  if isNew && i.group.isSome && f.items.any (fun j =>
      j.group == i.group && j.dest != i.dest && st.given.contains j.dest) then misuse
  else
    let value := match i.arity with
      | .collected => Doc.arr (((st.values.get? i.dest).map Doc.itemsOf).getD [] ++ [value])
      | _ => value
    return { st with values := Table.set st.values i.dest value }

def plainRun : List Word → List String
  | .plain s :: ws => s :: plainRun ws
  | _ => []

/-- Takes an option without a joined value, and the words it needs. -/
def takeBare (i : Item) (rest : List Word) : Except Fault (State × List Word) := do
  match i.arity with
  | .flag | .help => return (← take f st i [], rest)
  | .several =>
    match plainRun rest with
    | [] => misuse
    | ss => return (← take f st i ss, rest.drop ss.length)
  | _ =>
    match rest with
    | .plain s :: rest => return (← take f st i [s], rest)
    | _ => misuse

/-- Takes an option with a joined value; a flag takes the value as further flags. -/
def takeJoined (f : Form) : Nat → State → List Item → Item → String → Bool → List Char → List Word →
    Except Fault (State × List Word)
  | 0, _, _, _, _, _, _, _ => misuse
  | fuel + 1, st, flags, i, name, equals, value, rest =>
    match i.arity with
    | .flag | .help =>
      if startsWith name "--" || value.isEmpty then misuse
      else if equals || value.head? = some '-' then misuse
      else
        match value with
        | [] => misuse
        | c :: cs =>
          let next := String.ofList ['-', c]
          match f.names.lookup next with
          | none => do
            let st ← (flags ++ [i]).foldlM (fun st i => take f st i []) st
            return ({ st with extra := true }, rest)
          | some j =>
            match cs with
            | [] => do
              let (st, rest) ← pure (st, rest)
              let st ← (flags ++ [i]).foldlM (fun st i => take f st i []) st
              takeBare f st j rest
            | '=' :: cs => takeJoined f fuel st (flags ++ [i]) j next true cs rest
            | cs => takeJoined f fuel st (flags ++ [i]) j next false cs rest
    | _ => do
      let st ← flags.foldlM (fun st i => take f st i []) st
      return (← take f st i [String.ofList value], rest)

/-- Takes arguments by place as far as words and places last. -/
def takePlaces (f : Form) : State → List Item → List Word → Except Fault (State × List Word)
  | st, [], ws => .ok ({ st with places := [] }, ws)
  | st, i :: is, ws =>
    match ws with
    | .plain s :: .dashes :: rest => do takePlaces f (← take f st i [s]) is rest
    | .plain s :: rest => do takePlaces f (← take f st i [s]) is rest
    | .dashes :: .plain s :: rest => do takePlaces f (← take f st i [s]) is rest
    | ws => .ok ({ st with places := i :: is }, ws)

def readWords (f : Form) : Nat → State → List Word → Except Fault State
  | 0, _, _ => misuse
  | fuel + 1, st, ws =>
    match ws with
    | .option none _ _ _ _ :: rest => readWords f fuel { st with extra := true } rest
    | .option (some i) name equals (some value) _ :: rest => do
      let (st, rest) ← takeJoined f (value.length + 2) st [] i name equals value.toList rest
      readWords f fuel st rest
    | .option (some i) _ _ none _ :: rest => do
      let (st, rest) ← takeBare f st i rest
      readWords f fuel st rest
    | ws => do
      let (st, rest) ← takePlaces f st st.places ws
      if !rest.any Word.isOption then return { st with extra := st.extra || !rest.isEmpty }
      if rest.length < ws.length then readWords f fuel st rest
      else readWords f fuel { st with extra := true } (rest.dropWhile fun w => !w.isOption)

def defaults : Table String Doc :=
  f.items.foldl (fun t i => t.setDefault i.dest (match i.arity with
    | .flag => .bool false
    | _ => i.default)) []

def complete : Bool :=
  f.items.all (fun i => !(i.required || i.names.isEmpty) || st.seen.contains i.dest) &&
    f.requiredGroups.all fun g => f.items.any fun i => i.group == some g && st.given.contains i.dest

/-- Reads a line by a form: the values by name, and whether words are left over. -/
def readKnown (args : List String) : Except Fault (Table String Doc × Bool) := do
  let ws ← classifyAll f args
  let st ← readWords f (ws.length + 1) { values := defaults f, places := f.places } ws
  if complete f st then return (st.values, st.extra) else misuse

def read (args : List String) : Except Fault (Table String Doc) := do
  let (values, extra) ← readKnown f args
  if extra then misuse else return values

/-- Reads a line whose first argument is a command, whose absence is only noted. -/
def readCommands (commands : List (String × Form)) (args : List String) : Except Fault (Table String Doc) := do
  let ws ← classifyAll { items := [] } args
  let before := ws.takeWhile fun w => match w with
    | .option none _ _ _ _ => true
    | _ => false
  match ws.drop before.length with
  | [] => if before.isEmpty then return [("cmd", .null)] else misuse
  | .plain command :: rest =>
    match commands.lookup command with
    | none => misuse
    | some f => do
      let (values, extra) ← readKnown f (rest.map Word.raw)
      if extra || !before.isEmpty then misuse
      return ("cmd", .str command) :: values
  | .option (some i) name equals (some value) _ :: rest => do
    let _ ← takeJoined { items := [] } (value.length + 2) { values := [] } [] i name equals value.toList rest
    misuse
  | .option (some i) _ _ none _ :: rest => do
    let _ ← takeBare { items := [] } { values := [] } i rest
    misuse
  | _ => misuse

/-! ## Values of a command

The values that a command line or a step gives, by name, read as what a command needs.
-/

abbrev Values := List (String × Doc)

namespace Values

variable (v : Values) (k : String)

def value : Doc := (v.lookup k).getD .null

def text : String := (v.value k).strD ""

def text? : Option String := (v.value k).str?

def flag (default : Bool := false) : Bool :=
  match v.lookup k with
  | some d => d.truthy
  | none => default

def int? (default : Option Int) : Option Int :=
  match v.lookup k with
  | some d => d.int?
  | none => default

def texts : List String := (v.value k).itemsOf.map fun x => x.strD ""

def texts? : Option (List String) :=
  match v.value k with
  | .null => none
  | _ => some (v.texts k)

def language (k : String := "language") : Except Fault Language := Language.ofWord (v.text k)

def registry? (k : String := "package_manager") : Except Fault (Option Registry.Kind) :=
  match v.text? k with
  | some w => (Registry.Kind.ofWord w).map some
  | none => .ok none

end Values

end Vetting.Command
