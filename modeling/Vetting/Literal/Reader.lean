import Vetting.Literal.Lexeme

/-!
# Reading literals

Reading is by recursion on a bound for the number of steps. A text that is no literal is refused with the
reason that `refusal` gives; a collection as a key is a fault of its own.
-/

/-!
## Which texts are expressions

A text is refused as an expression that is no literal, or as something that cannot be read at all. Only the
outer form of expressions matters.
-/

namespace Vetting.Literal

inductive Word where
  /-- A number or a quoted text. -/
  | constant (quoted : Bool)
  | name (s : String)
  | mark (s : String)
deriving BEq, DecidableEq, Inhabited

namespace Word

def marks : List String := [
  "**", "//", "<<", ">>", "<=", ">=", "==", "!=", ":=", "...", "=", "+", "-", "*", "/", "%", "@", "&",
  "|", "^", "~", "<", ">", "(", ")", "[", "]", "\x7b", "\x7d", ",", ":", "."]

def depthAfter (depth : Nat) (m : String) : Nat :=
  if m = "(" || m = "[" || m = "\x7b" then depth + 1
  else if m = ")" || m = "]" || m = "\x7d" then depth - 1
  else depth

/-- Cuts a text into words; outside brackets only blank lines may follow a line end. -/
def scanGo : Nat → Nat → List Char → Except Fault (List Word)
  | 0, _, _ => .error (.cause .unparsable)
  | fuel + 1, depth, cs =>
    match cs with
    | [] => .ok []
    | '\\' :: '\n' :: rest => scanGo fuel depth rest
    | c :: rest =>
      if c = ' ' || c = '\t' || c.toNat = 12 then scanGo fuel depth rest
      else if c = '#' then scanGo fuel depth (rest.dropWhile (· != '\n'))
      else if c = '\n' then
        if depth > 0 then scanGo fuel depth rest
        else
          let line := rest.dropWhile fun c => c = '\n'
          match line with
          | [] => .ok []
          | c :: _ =>
            if (line.dropWhile fun c => c = ' ' || c = '\t' || c = '\n').isEmpty then .ok []
            else if c = ' ' || c = '\t' then .error (.cause .badIndent)
            else if c = '#' then scanGo fuel depth (line.dropWhile (· != '\n'))
            else .error (.cause .unparsable)
      else if startsQuoted cs then
        match readQuoted cs with
        | some (_, _, rest) => (scanGo fuel depth rest).map (.constant true :: ·)
        | .none => .error (.cause .unparsable)
      else if c.isDigit || (c = '.' && rest.head?.any Char.isDigit) then
        match readNumber cs with
        | some (_, rest) => (scanGo fuel depth rest).map (.constant false :: ·)
        | .none => .error (.cause .unparsable)
      else if Text.isWordChar c then
        (scanGo fuel depth (cs.dropWhile Text.isWordChar)).map
          (.name (String.ofList (cs.takeWhile Text.isWordChar)) :: ·)
      else match marks.find? (fun m => m.toList.isPrefixOf cs) with
        | some m => (scanGo fuel (depthAfter depth m) (cs.drop m.length)).map (.mark m :: ·)
        | .none => .error (.cause .unparsable)

def scan (cs : List Char) : Except Fault (List Word) := scanGo (cs.length + 1) 0 cs

def isReserved (s : String) : Bool :=
  ["as", "assert", "async", "await", "break", "class", "continue", "def", "del", "elif", "else",
    "except", "finally", "for", "from", "global", "if", "import", "in", "is", "lambda", "nonlocal",
    "not", "and", "or", "pass", "raise", "return", "try", "while", "with", "yield"].contains s

def isBinary (m : String) : Bool :=
  ["**", "//", "<<", ">>", "<=", ">=", "==", "!=", "+", "-", "*", "/", "%", "@", "&", "|", "^", "<", ">"].contains m

mutual

/-- Reads an expression: operands with operators between them, and perhaps a condition. -/
def expression : Nat → List Word → Option (List Word)
  | 0, _ => .none
  | fuel + 1, .name "lambda" :: ws =>
    match ws.dropWhile (· != .mark ":") with
    | _ :: ws => expression fuel ws
    | [] => .none
  | fuel + 1, ws =>
    match operands fuel true ws with
    | some (.name "if" :: ws) =>
      match operands fuel true ws with
      | some (.name "else" :: ws) => expression fuel ws
      | _ => .none
    | r => r

/-- Reads operands with operators between them; `not` may stand where a condition may. -/
def operands : Nat → Bool → List Word → Option (List Word)
  | 0, _, _ => .none
  | fuel + 1, true, .name "not" :: ws => operands fuel true ws
  | fuel + 1, _, .mark m :: ws =>
    if m = "-" || m = "+" || m = "~" then operands fuel false ws
    else match primary fuel (.mark m :: ws) with
      | .none => .none
      | some ws => further fuel ws
  | fuel + 1, _, ws =>
    match primary fuel ws with
    | .none => .none
    | some ws => further fuel ws

/-- Reads the operators after an operand and what follows them. -/
def further : Nat → List Word → Option (List Word)
  | 0, _ => .none
  | fuel + 1, .name "and" :: ws => operands fuel true ws
  | fuel + 1, .name "or" :: ws => operands fuel true ws
  | fuel + 1, .name "not" :: .name "in" :: ws => operands fuel false ws
  | fuel + 1, .name "in" :: ws => operands fuel false ws
  | fuel + 1, .name "is" :: .name "not" :: ws => operands fuel false ws
  | fuel + 1, .name "is" :: ws => operands fuel false ws
  | fuel + 1, .mark m :: ws => if isBinary m then operands fuel false ws else some (.mark m :: ws)
  | _ + 1, ws => some ws

/-- Reads an operand and the calls, places and members after it. -/
def primary : Nat → List Word → Option (List Word)
  | 0, _ => .none
  | fuel + 1, .constant true :: .constant true :: ws => primary fuel (.constant true :: ws)
  | fuel + 1, .constant _ :: ws => trailers fuel ws
  | fuel + 1, .name s :: ws => if isReserved s then .none else trailers fuel ws
  | fuel + 1, .mark "..." :: ws => trailers fuel ws
  | fuel + 1, .mark "(" :: ws =>
    match items fuel ")" ws with
    | some ws => trailers fuel ws
    | .none => .none
  | fuel + 1, .mark "[" :: ws =>
    match items fuel "]" ws with
    | some ws => trailers fuel ws
    | .none => .none
  | fuel + 1, .mark m :: ws =>
    if m = "\x7b" then
      match items fuel "\x7d" ws with
      | some ws => trailers fuel ws
      | .none => .none
    else .none
  | _ + 1, _ => .none

def trailers : Nat → List Word → Option (List Word)
  | 0, _ => .none
  | fuel + 1, .mark "." :: .name s :: ws => if isReserved s then .none else trailers fuel ws
  | fuel + 1, .mark "(" :: ws =>
    match items fuel ")" ws with
    | some ws => trailers fuel ws
    | .none => .none
  | _ + 1, .mark "[" :: .mark "]" :: _ => .none
  | fuel + 1, .mark "[" :: ws =>
    match items fuel "]" ws with
    | some ws => trailers fuel ws
    | .none => .none
  | _ + 1, ws => some ws

/-- Reads items with commas between them up to a closing bracket. -/
def items : Nat → String → List Word → Option (List Word)
  | 0, _, _ => .none
  | fuel + 1, close, ws =>
    if ws.head? = some (.mark close) then some (ws.drop 1)
    else match item fuel ws with
      | some (.mark "," :: ws) => items fuel close ws
      | some (.mark m :: ws) => if m = close then some ws else .none
      | _ => .none

/-- Reads an expression, perhaps with stars before it or a value after it, or a generator. -/
def item : Nat → List Word → Option (List Word)
  | 0, _ => .none
  | fuel + 1, .mark "*" :: ws => operands fuel false ws
  | fuel + 1, .mark "**" :: ws => operands fuel false ws
  | fuel + 1, ws =>
    match expression fuel ws with
    | some (.mark ":" :: ws) =>
      match expression fuel ws with
      | some (.name "for" :: ws) => generator fuel ws
      | r => r
    | some (.mark "=" :: ws) => expression fuel ws
    | some (.name "for" :: ws) => generator fuel ws
    | r => r

def generator : Nat → List Word → Option (List Word)
  | 0, _ => .none
  | fuel + 1, ws =>
    match ws.dropWhile (· != .name "in") with
    | _ :: ws =>
      match operands fuel true ws with
      | some (.name "for" :: ws) => generator fuel ws
      | some (.name "if" :: ws) => generator fuel (.name "in" :: ws)
      | r => r
    | [] => .none

end

/-- Whether words are one expression, or several with commas between them. -/
def areExpressions : Nat → List Word → Bool
  | 0, _ => false
  | fuel + 1, ws =>
    match expression fuel ws with
    | some [] => true
    | some [.mark ","] => true
    | some (.mark "," :: ws) => areExpressions fuel ws
    | _ => false

end Word

def refusal (cs : List Char) : Fault :=
  match Word.scan cs with
  | .error f => f
  | .ok ws =>
    if Word.areExpressions (16 * (ws.length + 2)) ws then .cause .badValue else .cause .unparsable

/-! ## Reading literals -/

/-- Drops what may stand between the parts of a literal; inside brackets also line ends. -/
def skip (inside : Bool) : Nat → List Char → List Char
  | 0, cs => cs
  | fuel + 1, cs =>
    match cs with
    | '\\' :: '\n' :: rest => skip inside fuel rest
    | c :: rest =>
      if c = ' ' || c = '\t' || c.toNat = 12 then skip inside fuel rest
      else if inside && c = '\n' then skip inside fuel rest
      else if inside && c = '#' then skip inside fuel (rest.dropWhile (· != '\n'))
      else c :: rest
    | [] => []

variable (inside : Bool)

def gap (cs : List Char) : List Char := skip inside cs.length cs

def isDone : Nat → List Char → Bool
  | 0, cs => cs.isEmpty
  | fuel + 1, cs =>
    match gap false cs with
    | [] => true
    | '\n' :: rest => isDone fuel rest
    | '#' :: rest => isDone fuel (rest.dropWhile (· != '\n'))
    | _ => false

def negated : Literal → Literal
  | .int n => .int (-n)
  | .decimal m e => .decimal (-m) e
  | x => x

def isNumber : Literal → Bool
  | .int _ => true
  | .decimal .. => true
  | .complex => true
  | _ => false

/-- A value read from a text: whether it is written without a sign, and what follows it. -/
structure Part where
  value : Literal
  unsigned : Bool
  rest : List Char
deriving Inhabited

def joinQuoted (inside : Bool) : Nat → QuoteKind → List Char → List Char → Option (QuoteKind × List Char × List Char)
  | 0, _, _, _ => .none
  | fuel + 1, kind, acc, cs =>
    let cs' := gap inside cs
    if startsQuoted cs' then
      match readQuoted cs' with
      | some (kind', s, rest) =>
        if kind' = kind then joinQuoted inside fuel kind (acc ++ s) rest else .none
      | .none => .none
    else some (kind, acc, cs)

def readTexts (cs : List Char) : Option Part :=
  match readQuoted cs with
  | .none => .none
  | some (kind, s, rest) =>
    match joinQuoted inside (rest.length + 1) kind s rest with
    | some (.plain, s, rest) => some ⟨.text (String.ofList s), false, rest⟩
    | some (.bytes, s, rest) => some ⟨.bytes (s.map fun c => c.toNat.toUInt8), false, rest⟩
    | _ => .none

def readName (cs : List Char) : Option Part :=
  let w := String.ofList (cs.takeWhile Text.isWordChar)
  let rest := cs.dropWhile Text.isWordChar
  if w = "None" then some ⟨.none, false, rest⟩
  else if w = "True" then some ⟨.bool true, false, rest⟩
  else if w = "False" then some ⟨.bool false, false, rest⟩
  else if w = "set" then
    match gap inside rest with
    | '(' :: rest =>
      match gap true rest with
      | ')' :: rest => some ⟨.set [], false, rest⟩
      | _ => .none
    | _ => .none
  else .none

/-- Adds an imaginary part after a number, if one follows. -/
def withImaginary (p : Part) : Option Part :=
  match p.value, gap inside p.rest with
  | .int _, c :: rest =>
    if c = '+' || c = '-' then
      match readNumber (gap inside rest) with
      | some (.complex, rest) => some ⟨.complex, false, rest⟩
      | _ => .none
    else some p
  | .decimal .., c :: rest =>
    if c = '+' || c = '-' then
      match readNumber (gap inside rest) with
      | some (.complex, rest) => some ⟨.complex, false, rest⟩
      | _ => .none
    else some p
  | _, _ => some p

mutual

def readValue : Nat → Bool → List Char → Option Part
  | 0, _, _ => .none
  | fuel + 1, inside, cs =>
    match cs with
    | '(' :: rest =>
      match gap true rest with
      | ')' :: rest => some ⟨.tuple [], false, rest⟩
      | rest =>
        match readValue fuel true rest with
        | .none => .none
        | some p =>
          match gap true p.rest with
          | ')' :: rest => some { p with rest := rest }
          | ',' :: rest =>
            (readItems fuel ')' (gap true rest)).map fun (xs, rest) =>
              ⟨.tuple (p.value :: xs), false, rest⟩
          | _ => .none
    | '[' :: rest =>
      (readItems fuel ']' (gap true rest)).map fun (xs, rest) => ⟨.list xs, false, rest⟩
    | '{' :: rest =>
      match gap true rest with
      | '}' :: rest => some ⟨.dict [], false, rest⟩
      | rest =>
        match readValue fuel true rest with
        | .none => .none
        | some p =>
          match gap true p.rest with
          | '}' :: rest => some ⟨.set [p.value], false, rest⟩
          | ',' :: rest =>
            (readItems fuel '}' (gap true rest)).map fun (xs, rest) =>
              ⟨.set (p.value :: xs), false, rest⟩
          | ':' :: rest => readEntries fuel [] p.value (gap true rest)
          | _ => .none
    | '-' :: rest =>
      match readValue fuel inside (gap inside rest) with
      | some p =>
        if p.unsigned && isNumber p.value then
          withImaginary inside ⟨negated p.value, false, p.rest⟩
        else .none
      | .none => .none
    | '+' :: rest =>
      match readValue fuel inside (gap inside rest) with
      | some p =>
        if p.unsigned && isNumber p.value then withImaginary inside { p with unsigned := false }
        else .none
      | .none => .none
    | '.' :: '.' :: '.' :: rest => some ⟨.ellipsis, false, rest⟩
    | cs =>
      if startsQuoted cs then readTexts inside cs
      else match readNumber cs with
        | some (n, rest) => withImaginary inside ⟨n, true, rest⟩
        | .none => readName inside cs

/-- Reads items up to a closing bracket; a comma may come last. -/
def readItems : Nat → Char → List Char → Option (List Literal × List Char)
  | 0, _, _ => .none
  | fuel + 1, close, cs =>
    match cs with
    | [] => .none
    | c :: rest =>
      if c = close then some ([], rest)
      else match readValue fuel true cs with
        | .none => .none
        | some p =>
          match gap true p.rest with
          | ',' :: rest =>
            (readItems fuel close (gap true rest)).map fun (xs, rest) => (p.value :: xs, rest)
          | c :: rest => if c = close then some ([p.value], rest) else .none
          | [] => .none

/-- Reads the entries of a dictionary after the key and the colon of one. -/
def readEntries : Nat → List (Literal × Literal) → Literal → List Char → Option Part
  | 0, _, _, _ => .none
  | fuel + 1, acc, k, cs =>
    match readValue fuel true cs with
    | .none => .none
    | some p =>
      let acc := (k, p.value) :: acc
      match gap true p.rest with
      | '}' :: rest => some ⟨.dict acc.reverse, false, rest⟩
      | ',' :: rest =>
        match gap true rest with
        | '}' :: rest => some ⟨.dict acc.reverse, false, rest⟩
        | rest =>
          match readValue fuel true rest with
          | .none => .none
          | some p =>
            match gap true p.rest with
            | ':' :: rest => readEntries fuel acc p.value (gap true rest)
            | _ => .none
      | _ => .none

end

def readBare : Nat → List Literal → List Char → Option (List Literal)
  | 0, _, _ => .none
  | fuel + 1, acc, cs =>
    if isDone cs.length cs then some acc.reverse
    else match readValue fuel false (gap false cs) with
      | .none => .none
      | some p =>
        match gap false p.rest with
        | ',' :: rest => readBare fuel (p.value :: acc) rest
        | rest => if isDone rest.length rest then some ((p.value :: acc).reverse) else .none

/-- Reads a whole text as a value, without regard to which values may be keys. -/
def readAll (cs : List Char) : Option Literal :=
  let fuel := 4 * (cs.length + 1)
  match readValue fuel false (gap false cs) with
  | .none => .none
  | some p =>
    match gap false p.rest with
    | ',' :: rest => (readBare fuel [p.value] rest).map .tuple
    | rest => if isDone rest.length rest then some p.value else .none

mutual

/-- A value in order: no member twice, the last value of a key in its first place. -/
def settled : Literal → Except Fault Literal
  | .list xs => (settledItems xs).map .list
  | .tuple xs => (settledItems xs).map .tuple
  | .set xs => do
    let xs ← settledItems xs
    if areKeys xs then return .set (xs.foldl (fun ys x => if isIn x ys then ys else ys ++ [x]) [])
    else throw (.cause .wrongType)
  | .dict es => do
    let es ← settledEntries es
    if areKeys (es.map Prod.fst) then
      return .dict (es.foldl (fun t p => setEntry p.1 p.2 t) [])
    else throw (.cause .wrongType)
  | x => .ok x

def settledItems : List Literal → Except Fault (List Literal)
  | [] => .ok []
  | x :: xs => do
    let x ← settled x
    let xs ← settledItems xs
    return x :: xs

def settledEntries : List (Literal × Literal) → Except Fault (List (Literal × Literal))
  | [] => .ok []
  | (k, v) :: es => do
    let k ← settled k
    let v ← settled v
    let es ← settledEntries es
    return (k, v) :: es

end

/-- The value that a text writes. Blanks in front of it do not count. -/
def parse (s : String) : Except Fault Literal :=
  let cs := Text.unifyLineEnds (s.toList.dropWhile fun c => c = ' ' || c = '\t')
  let indented := cs.head? = some '\n' && (cs.dropWhile (· = '\n')).head?.any fun c => c = ' ' || c = '\t'
  let cs := cs.dropWhile (· = '\n')
  if cs.contains (Char.ofNat 0) then .error (.cause .unparsable)
  else if indented && !isDone cs.length cs then .error (.cause .badIndent)
  else match readAll cs with
    | some x => settled x
    | .none => .error (refusal cs)

end Vetting.Literal
