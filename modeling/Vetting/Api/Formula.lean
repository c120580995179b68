import Vetting.Fault
import Vetting.Text.Digit

/-!
# Formulas over the numbers of functions

A formula says which combinations of functions make a package suspicious; a number is true if its function is
used. Below stands the reader of texts in which every number has given way to such a statement.
-/

namespace Vetting.Api

/-- The operators between two formulas, from the loosest to the tightest. -/
inductive Operator where
  | or
  | and
  | bitOr
  | bitXor
  | bitAnd
deriving BEq, DecidableEq, Inhabited

def Operator.apply : Operator → Bool → Bool → Bool
  | .or, a, b => a || b
  | .and, a, b => a && b
  | .bitOr, a, b => a || b
  | .bitXor, a, b => a != b
  | .bitAnd, a, b => a && b

inductive Formula where
  | id (n : Nat)
  | not (f : Formula)
  | binary (op : Operator) (f g : Formula)
deriving BEq, DecidableEq, Inhabited

def Formula.eval (used : Nat → Bool) : Formula → Bool
  | .id n => used n
  | .not f => !f.eval used
  | .binary op f g => op.apply (f.eval used) (g.eval used)

def usedName : List Char := "used_apis_numerical".toList

def statementEnd : List Char := " in ".toList ++ usedName ++ [')']

/-- Makes every run of digits a statement; the flag tells whether a run is open. -/
def stateGo : Bool → List Char → List Char
  | isOpen, [] => if isOpen then statementEnd else []
  | isOpen, c :: cs =>
    if Text.isDecimal c then (if isOpen then [c] else ['(', c]) ++ stateGo true cs
    else (if isOpen then statementEnd else []) ++ c :: stateGo false cs

def stateNumbers (cs : List Char) : List Char := stateGo false cs

/-! ## Tokens -/

inductive FormulaToken where
  | leftParen
  | rightParen
  | comma
  | not
  | operator (op : Operator)
  | isIn
  | equal
  | notEqual
  | name (cs : List Char)
  | number (n : Nat)
deriving BEq, DecidableEq, Inhabited

namespace FormulaToken

/-- Words with a meaning of their own that no formula has a use for. -/
def reserved : List String := [
  "as", "assert", "async", "await", "break", "class", "continue", "def", "del", "elif", "else",
  "except", "finally", "for", "from", "global", "if", "import", "is", "lambda", "nonlocal",
  "pass", "raise", "return", "try", "while", "with", "yield"]

def ofWord (cs : List Char) : Option FormulaToken :=
  let w := String.ofList cs
  if w = "and" then some (.operator .and)
  else if w = "or" then some (.operator .or)
  else if w = "not" then some .not
  else if w = "in" then some .isIn
  else if reserved.contains w then none
  else some (.name cs)

def ofDigits (ds : List Char) : Option FormulaToken :=
  if !ds.all Char.isDigit then none
  else if ds.head? = some '0' && ds.any (· != '0') then none
  else some (.number (Nat.ofDigitChars 10 ds 0))

def inName (c : Char) : Bool := Text.isWordChar c && !Text.isDecimal c

/-- Reads a sign or a blank: its token, if any, and what follows. A comment is a blank. -/
def sign : Char → List Char → Option (Option FormulaToken × List Char)
  | '=', '=' :: cs => some (some .equal, cs)
  | '!', '=' :: cs => some (some .notEqual, cs)
  | '(', cs => some (some .leftParen, cs)
  | ')', cs => some (some .rightParen, cs)
  | ',', cs => some (some .comma, cs)
  | '&', cs => some (some (.operator .bitAnd), cs)
  | '|', cs => some (some (.operator .bitOr), cs)
  | '^', cs => some (some (.operator .bitXor), cs)
  | c, cs =>
    if c = ' ' || c = '\t' || c.toNat = 12 then some (none, cs)
    else if c = '#' then some (none, cs.dropWhile (· != '\n'))
    else if (c = '\n' || c = '\r') && cs.all Text.isBlank then some (none, [])
    else none

/-- Cuts a text into tokens; `none` if a part of it is none. Each step takes a character. -/
def scanGo : Nat → List Char → Option (List FormulaToken)
  | 0, _ => none
  | _ + 1, [] => some []
  | fuel + 1, c :: cs =>
    if Text.isDecimal c then
      match ofDigits ((c :: cs).takeWhile Text.isDecimal) with
      | none => none
      | some t => (scanGo fuel ((c :: cs).dropWhile Text.isDecimal)).map (t :: ·)
    else if inName c then
      match ofWord ((c :: cs).takeWhile inName) with
      | none => none
      | some t => (scanGo fuel ((c :: cs).dropWhile inName)).map (t :: ·)
    else
      match sign c cs with
      | none => none
      | some (t, cs) => (scanGo fuel cs).map (t.toList ++ ·)

def maxDepth : Nat := 200

def shallow : Nat → List FormulaToken → Bool
  | _, [] => true
  | d, .leftParen :: ts => if d < maxDepth then shallow (d + 1) ts else false
  | d, .rightParen :: ts => shallow (d - 1) ts
  | d, _ :: ts => shallow d ts

def scan (cs : List Char) : Option (List FormulaToken) :=
  let cs := cs.dropWhile fun c => c = ' ' || c = '\t' || c = '\n' || c = '\r'
  match scanGo (cs.length + 1) cs with
  | some ts => if shallow 0 ts then some ts else none
  | none => none

end FormulaToken

/-! ## Expressions -/

/-- What a text from outside may write. -/
inductive Expr where
  | member (n : Nat)
  | name (cs : List Char)
  | tuple (es : List Expr)
  | call (f : Expr) (args : List Expr)
  | not (e : Expr)
  | binary (op : Operator) (a b : Expr)
  /-- A chain of comparisons; `true` asks for equality. -/
  | compare (first : Expr) (rest : List (Bool × Expr))
deriving Inhabited

/-- The places of an expression, by the loosest operator that may stand there. -/
inductive Level where
  | chain (op : Operator)
  | negation
  | primary
deriving BEq, DecidableEq, Inhabited

def Operator.operand : Operator → Level
  | .or => .chain .and
  | .and => .negation
  | .bitOr => .chain .bitXor
  | .bitXor => .chain .bitAnd
  | .bitAnd => .primary

namespace Expr

abbrev Read (α : Type) := Option (α × List FormulaToken)

mutual

def readAt : Nat → Level → List FormulaToken → Read Expr
  | 0, _, _ => none
  | fuel + 1, .chain op, ts =>
    match readAt fuel op.operand ts with
    | none => none
    | some (e, ts) => readMore fuel op e ts
  | fuel + 1, .negation, .not :: ts => (readAt fuel .negation ts).map fun (e, ts) => (.not e, ts)
  | _ + 1, .negation, .number n :: .isIn :: .name cs :: ts =>
    if cs = usedName then some (.member n, ts) else none
  | fuel + 1, .negation, ts =>
    match readAt fuel (.chain .bitOr) ts with
    | none => none
    | some (e, ts) =>
      match readCompare fuel ts with
      | none => none
      | some ([], ts) => some (e, ts)
      | some (rest, ts) => some (.compare e rest, ts)
  | fuel + 1, .primary, .name cs :: ts => readCalls fuel (.name cs) ts
  | fuel + 1, .primary, .leftParen :: .rightParen :: ts => readCalls fuel (.tuple []) ts
  | fuel + 1, .primary, .leftParen :: ts =>
    match readAt fuel (.chain .or) ts with
    | some (e, .rightParen :: ts) => readCalls fuel e ts
    | some (e, .comma :: ts) =>
      match readItems fuel ts with
      | some (es, .rightParen :: ts) => readCalls fuel (.tuple (e :: es)) ts
      | _ => none
    | _ => none
  | _ + 1, .primary, _ => none

def readMore : Nat → Operator → Expr → List FormulaToken → Read Expr
  | 0, _, _, _ => none
  | _ + 1, _, e, [] => some (e, [])
  | fuel + 1, op, e, t :: ts =>
    if t = .operator op then
      match readAt fuel op.operand ts with
      | none => none
      | some (e', ts) => readMore fuel op (.binary op e e') ts
    else some (e, t :: ts)

def readCompare : Nat → List FormulaToken → Read (List (Bool × Expr))
  | 0, _ => none
  | fuel + 1, .equal :: ts =>
    match readAt fuel (.chain .bitOr) ts with
    | none => none
    | some (e, ts) => (readCompare fuel ts).map fun (rest, ts) => ((true, e) :: rest, ts)
  | fuel + 1, .notEqual :: ts =>
    match readAt fuel (.chain .bitOr) ts with
    | none => none
    | some (e, ts) => (readCompare fuel ts).map fun (rest, ts) => ((false, e) :: rest, ts)
  | _ + 1, ts => some ([], ts)

def readCalls : Nat → Expr → List FormulaToken → Read Expr
  | 0, _, _ => none
  | fuel + 1, e, .leftParen :: ts =>
    match readItems fuel ts with
    | some (es, .rightParen :: ts) => readCalls fuel (.call e es) ts
    | _ => none
  | _ + 1, e, ts => some (e, ts)

/-- Reads parts with commas between them; a comma may come last. -/
def readItems : Nat → List FormulaToken → Read (List Expr)
  | 0, _ => none
  | _ + 1, [] => some ([], [])
  | _ + 1, .rightParen :: ts => some ([], .rightParen :: ts)
  | fuel + 1, ts =>
    match readAt fuel (.chain .or) ts with
    | none => none
    | some (e, .comma :: ts) => (readItems fuel ts).map fun (es, ts) => (e :: es, ts)
    | some (e, ts) => some ([e], ts)

end

/-- Reads expressions with commas between them. A token passes at most a dozen of the functions above. -/
def parse? (ts : List FormulaToken) : Option Expr :=
  let fuel := 16 * (ts.length + 1)
  match readAt fuel (.chain .or) ts with
  | some (e, []) => some e
  | some (e, .comma :: ts) =>
    match readItems fuel ts with
    | some (es, []) => some (.tuple (e :: es))
    | _ => none
  | _ => none

/-! ## Values -/

/-- What an expression can come to. -/
inductive Value where
  | bool (b : Bool)
  | none
  | tuple (vs : List Value)
deriving Inhabited, BEq

def Value.truthy : Value → Bool
  | .bool b => b
  | .none => false
  | .tuple vs => !vs.isEmpty

def bitwise (op : Operator) : Value → Value → Except Fault Value
  | .bool a, .bool b => .ok (.bool (op.apply a b))
  | _, _ => .error (.cause .wrongType)

def nameValue (cs : List Char) : Except Fault Value :=
  if cs = "True".toList then .ok (.bool true)
  else if cs = "False".toList then .ok (.bool false)
  else if cs = "None".toList then .ok .none
  else .error (.cause .unboundName)

mutual

/-- The value of an expression; what `and` and `or` do not need is not looked at. -/
def eval (used : List Int) : Expr → Except Fault Value
  | .member n => .ok (.bool (used.contains (n : Int)))
  | .name cs => nameValue cs
  | .tuple es => (evalAll used es).map .tuple
  | .call f args => do
    let _ ← eval used f
    let _ ← evalAll used args
    throw (.cause .wrongType)
  | .not e => (eval used e).map fun v => .bool !v.truthy
  | .binary .and a b => do
    let v ← eval used a
    if v.truthy then eval used b else return v
  | .binary .or a b => do
    let v ← eval used a
    if v.truthy then return v else eval used b
  | .binary op a b => do
    let v ← eval used a
    let w ← eval used b
    bitwise op v w
  | .compare first rest => do
    let v ← eval used first
    evalChain used v rest

def evalAll (used : List Int) : List Expr → Except Fault (List Value)
  | [] => .ok []
  | e :: es => do
    let v ← eval used e
    let vs ← evalAll used es
    return v :: vs

/-- The value of a chain of comparisons, up to the first that fails. -/
def evalChain (used : List Int) (v : Value) : List (Bool × Expr) → Except Fault Value
  | [] => .ok v
  | (wantEqual, e) :: rest => do
    let w ← eval used e
    let holds := (v == w) == wantEqual
    if rest.isEmpty || !holds then return .bool holds else evalChain used w rest

end

end Expr

def evalText (used : List Int) (text : String) : Except Fault Expr.Value :=
  match FormulaToken.scan (stateNumbers text.toList) with
  | none => .error (.cause .unparsable)
  | some ts =>
    match Expr.parse? ts with
    | none => .error (.cause .unparsable)
    | some e => e.eval used

end Vetting.Api
