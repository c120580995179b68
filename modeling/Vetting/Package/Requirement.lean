import Vetting.Fault
import Vetting.Text.Blank

/-!
# Requirements

A name, perhaps extras in brackets, then versions or an address, and a condition on the environment. Only the
name matters, but the whole text has to be well formed.
-/

namespace Vetting.Package.Requirement

open Text

abbrev Part := List Char → Option (List Char)

variable (cs : List Char)

def gap : List Char := cs.dropWhile fun c => c = ' ' || c = '\t'

def one (c : Char) : Part
  | d :: cs => if c = d then some cs else none
  | [] => none

def word (w : String) (cs : List Char) : Option (List Char) :=
  if w.toList.isPrefixOf cs then some (cs.drop w.length) else none

def oneOf (ws : List String) (cs : List Char) : Option (List Char) := ws.findSome? fun w => word w cs

def maybe (p : Part) (cs : List Char) : List Char := (p cs).getD cs

def inName (c : Char) : Bool := c.isAlphanum || c = '.' || c = '_' || c = '-'

/-- Reads a name: it starts with a letter or digit and does not end with a dot or a dash. -/
def name : Option (List Char × List Char) :=
  match cs with
  | c :: _ =>
    if c.isAlphanum then
      let run := cs.takeWhile inName
      let kept := stripEnd (fun c => c = '.' || c = '-') run
      let rest := cs.drop kept.length
      match rest with
      | d :: _ => if isWordChar d then none else some (kept, rest)
      | [] => some (kept, rest)
    else none
  | [] => none

def moreExtras : Nat → Part
  | 0, _ => none
  | fuel + 1, cs =>
    match gap cs with
    | ',' :: rest =>
      match name (gap rest) with
      | some (_, rest) => moreExtras fuel rest
      | none => none
    | ']' :: rest => some rest
    | _ => none

def extras : Part
  | '[' :: cs =>
    match name (gap cs) with
    | some (_, rest) => moreExtras (cs.length + 1) rest
    | none => one ']' (gap cs)
  | cs => some cs

/-! ## Versions -/

def digits : Option (List Char) :=
  match cs with
  | c :: _ => if c.isDigit then some (cs.dropWhile Char.isDigit) else none
  | [] => none

def moreNumbers : Nat → List Char → Nat × List Char
  | 0, cs => (0, cs)
  | fuel + 1, cs =>
    match cs with
    | '.' :: rest =>
      match digits rest with
      | some rest =>
        let (n, rest) := moreNumbers fuel rest
        (n + 1, rest)
      | none => (0, cs)
    | cs => (0, cs)

def mark : List Char → List Char
  | c :: cs => if c = '-' || c = '_' || c = '.' then cs else c :: cs
  | [] => []

def suffix (ws : List String) : Part := fun cs =>
  (oneOf ws (mark cs)).map fun rest =>
    let after := mark rest
    if after.length < rest.length && !(after.head?.any Char.isDigit) then after
    else after.dropWhile Char.isDigit

def suffixes : List Char :=
  let cs := maybe (suffix ["alpha", "beta", "preview", "pre", "a", "b", "c", "rc"]) cs
  let cs := match cs with
    | '-' :: rest => match digits rest with
      | some rest => rest
      | none => maybe (suffix ["post", "rev", "r"]) cs
    | cs => maybe (suffix ["post", "rev", "r"]) cs
  maybe (suffix ["dev"]) cs

def moreLabels : Nat → List Char → List Char
  | 0, cs => cs
  | fuel + 1, cs =>
    match cs with
    | c :: d :: rest =>
      if (c = '-' || c = '_' || c = '.') && d.isAlphanum then
        moreLabels fuel ((d :: rest).dropWhile Char.isAlphanum)
      else cs
    | cs => cs

def localLabel : List Char → List Char
  | '+' :: c :: cs =>
    if c.isAlphanum then moreLabels cs.length ((c :: cs).dropWhile Char.isAlphanum) else '+' :: c :: cs
  | cs => cs

/-- Reads a version: how many numbers follow the first, and the rest. -/
def release : Option (Nat × List Char) := do
  let cs := cs.dropWhile isBlank
  let cs := maybe (one 'v') cs
  let cs := match (digits cs).bind (one '!') with
    | some rest => rest
    | none => cs
  let rest ← digits cs
  return moreNumbers rest.length rest

def comparison : Option (List Char) :=
  let equality (rest : List Char) : Option (List Char) := do
    let (_, rest) ← release rest
    return match word ".*" rest with
      | some rest => rest
      | none => localLabel (suffixes rest)
  let other (rest : List Char) : Option (List Char) := do
    let (_, rest) ← release rest
    return suffixes rest
  match oneOf ["~="] cs with
  | some rest => do
    let (n, rest) ← release rest
    if n = 0 then none else some (suffixes rest)
  | none =>
    match (oneOf ["==", "!="] cs).bind equality with
    | some rest => some rest
    | none =>
      match oneOf ["==="] cs with
      | some rest =>
        some ((rest.dropWhile isBlank).dropWhile fun c => !(isBlank c || c = ';' || c = ')'))
      | none => (oneOf ["<=", ">=", "<", ">"] cs).bind other

def isTrailing : Bool :=
  (word ".*" cs).isSome || match cs with
    | '+' :: c :: _ => c.isAlphanum
    | _ => false

/-- Reads comparisons with commas between them; `none` if one is malformed. -/
def comparisons : Nat → Part
  | 0, _ => none
  | fuel + 1, cs =>
    match comparison cs with
    | none => some cs
    | some rest =>
      if isTrailing rest then none
      else match gap rest with
        | ',' :: rest => comparisons fuel (gap rest)
        | rest => some rest

def versions : Part
  | '(' :: cs =>
    match comparisons (cs.length + 1) (gap cs) with
    | some rest => one ')' (gap rest)
    | none => none
  | cs => comparisons (cs.length + 1) cs

/-- The names that conditions may ask about, longer ones first. -/
def conditionNames : List String := [
  "python_full_version", "python_version", "os.name", "os_name", "sys.platform", "sys_platform",
  "platform_release", "platform_system", "platform.version", "platform_version",
  "platform.machine", "platform_machine", "platform.python_implementation",
  "platform_python_implementation", "python_implementation", "implementation_name",
  "implementation_version", "extra"]

def wholeWord (w : String) (cs : List Char) : Option (List Char) :=
  match word w cs with
  | some (c :: rest) => if isWordChar c then none else some (c :: rest)
  | r => r

def operand : Part := fun cs =>
  match conditionNames.findSome? fun w => wholeWord w cs with
  | some rest => some rest
  | none =>
    match cs with
    | q :: rest =>
      if q = '\'' || q = '"' then one q (rest.dropWhile (· != q)) else none
    | [] => none

def operator : Part := fun cs =>
  match wholeWord "in" cs with
  | some rest => some rest
  | none =>
    match wholeWord "not" cs with
    | some (c :: rest) =>
      if c = ' ' || c = '\t' then wholeWord "in" (gap rest) else none
    | some [] => none
    | none => oneOf ["===", "==", "~=", "!=", "<=", ">=", "<", ">"] cs

mutual

/-- Reads a condition: comparisons with `and` and `or` between them. -/
def condition : Nat → Part
  | 0, _ => none
  | fuel + 1, cs =>
    match atom fuel (gap cs) with
    | none => none
    | some rest =>
      match (wholeWord "or" rest).orElse fun _ => wholeWord "and" rest with
      | some rest => condition fuel rest
      | none => some rest

/-- Reads one comparison of a condition, or a condition in parentheses. -/
def atom : Nat → Part
  | 0, _ => none
  | fuel + 1, '(' :: cs =>
    match condition fuel (gap cs) with
    | some rest => (one ')' (gap rest)).map gap
    | none => none
  | _ + 1, cs => do
    let rest ← operand cs
    let rest ← operator (gap rest)
    let rest ← operand (gap rest)
    return gap rest

end

def ending : Part
  | ';' :: cs => condition (cs.length + 2) cs
  | [] => some []
  | _ => none

def nameOf? (line : List Char) : Option (List Char) := do
  let (n, rest) ← name (gap line)
  let rest ← extras (gap rest)
  let rest ← match gap rest with
    | '@' :: rest =>
      let url := (gap rest).takeWhile fun c => !(c = ' ' || c = '\t')
      if url.isEmpty then none
      else
        match (gap rest).drop url.length with
        | [] => some []
        | after => if (gap after).isEmpty then some [] else ending (gap after)
    | rest => do
      let rest ← versions rest
      ending (gap rest)
  if (gap rest).isEmpty then some n else none

def safeName : Bool → List Char → List Char
  | _, [] => []
  | inRun, c :: cs =>
    if c.isAlphanum || c = '.' then c :: safeName false cs
    else if inRun then safeName true cs
    else '-' :: safeName true cs

def meaningful (s : String) : List (List Char) :=
  ((lines s).map fun l => stripChars isBlank l.toList).filter fun l =>
    !l.isEmpty && l.head? != some '#'

def dropRemark (l : List Char) : List Char :=
  match findChars [' ', '#'] l with
  | some n => l.take n
  | none => l

/-- Joins lines that end with a backslash to the next. -/
def joinLines : List (List Char) → List (List Char)
  | [] => []
  | l :: ls =>
    if l.getLast? = some '\\' then
      match joinLines ls with
      | [] => []
      | m :: rest => (stripChars isBlank (l.take (l.length - 2)) ++ m) :: rest
    else l :: joinLines ls

def projectName (s : String) : Except Fault String :=
  match joinLines ((meaningful s).map dropRemark) with
  | [l] =>
    match nameOf? l with
    | some n => .ok (String.ofList (safeName false n))
    | none => .error (.cause .badRequirement)
  | ls =>
    if ls.any fun l => (nameOf? l).isNone then .error (.cause .badRequirement)
    else .error (.cause .badValue)

end Vetting.Package.Requirement
