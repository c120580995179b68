import Vetting.Message.Basic

/-!
# Messages as text

A line `name: value` a field and a block in braces a nested message, with every byte outside ASCII in octal.
Reading also takes angle brackets, lists, separators and comments.
-/

namespace Vetting.Message

open String

/-! ## Writing -/

def octal (n : Nat) : List Char :=
  ['\\', Char.ofNat (48 + n / 64), Char.ofNat (48 + n / 8 % 8), Char.ofNat (48 + n % 8)]

def writeByte (b : UInt8) : List Char :=
  let n := b.toNat
  if n = 9 then ['\\', 't']
  else if n = 10 then ['\\', 'n']
  else if n = 13 then ['\\', 'r']
  else if n = 34 then ['\\', '"']
  else if n = 39 then ['\\', '\'']
  else if n = 92 then ['\\', '\\']
  else if 32 ≤ n && n < 127 then [Char.ofNat n]
  else octal n

def quote (s : String) : String :=
  ofList ('"' :: s.toUTF8.toList.flatMap writeByte ++ ['"'])

def margin (depth : Nat) : String := ofList (List.replicate (2 * depth) ' ')

def writeAtom (f : Field) (d : Doc) : String :=
  match d with
  | .str s => match f.kind with
    | .text => quote s
    | _ => s
  | .bool b => if b then "true" else "false"
  | .int n => Text.ofInt n
  | _ => ""

mutual

def writeFields (shape : String) : Nat → List (String × Doc) → String
  | _, [] => ""
  | depth, (k, v) :: fs =>
    (match field? shape k with
      | none => ""
      | some f => writeField f depth v) ++ writeFields shape depth fs

def writeField (f : Field) : Nat → Doc → String
  | depth, .arr xs => writeItems f depth xs
  | depth, .obj fs =>
    match f.kind with
    | .message shape =>
      margin depth ++ f.name ++ " \x7b\n" ++ writeFields shape (depth + 1) fs ++ margin depth ++ "\x7d\n"
    | _ => ""
  | depth, d => margin depth ++ f.name ++ ": " ++ writeAtom f d ++ "\n"

def writeItems (f : Field) : Nat → List Doc → String
  | _, [] => ""
  | depth, d :: ds => writeField f depth d ++ writeItems f depth ds

end

variable (shape : String) (c : Char)

def toText (d : Doc) : String := writeFields shape 0 d.fieldsOf

/-! ## Tokens -/

/-- A token of the text form. A quoted text is a sequence of bytes. -/
inductive Token where
  | word (cs : List Char)
  | number (cs : List Char)
  | quoted (bytes : List UInt8)
  | mark (c : Char)
deriving BEq, Inhabited

def startsWord : Bool := c.isAlpha || c = '_'

def inWord : Bool := c.isAlphanum || c = '_' || c = '+' || c = '-'

def inNumber : Bool := inWord c || c = '.'

def isOctal : Bool := '0' ≤ c && c ≤ '7'

def hexOf? : Option Nat :=
  if c.isDigit then some (c.toNat - 48)
  else if 'a' ≤ c && c ≤ 'f' then some (c.toNat - 87)
  else if 'A' ≤ c && c ≤ 'F' then some (c.toNat - 55)
  else none

def escapeOf? : Char → Option UInt8
  | 'n' => some 10 | 't' => some 9 | 'r' => some 13 | '"' => some 34 | '\'' => some 39
  | '\\' => some 92 | 'a' => some 7 | 'b' => some 8 | 'f' => some 12 | 'v' => some 11 | '?' => some 63
  | _ => none

/-- Reads a quoted text after its opening quote; it may not go over a line end. -/
def readQuoted (q : Char) : List UInt8 → List Char → Option (List UInt8 × List Char)
  | _, [] => none
  | acc, '\\' :: 'x' :: a :: b :: cs =>
    match hexOf? a, hexOf? b with
    | some m, some n => readQuoted q ((m * 16 + n).toUInt8 :: acc) cs
    | some m, none => readQuoted q (m.toUInt8 :: acc) (b :: cs)
    | none, _ => none
  | acc, '\\' :: c :: cs =>
    if isOctal c then
      match cs with
      | d :: e :: cs' =>
        if isOctal d then
          if isOctal e then
            readQuoted q ((((c.toNat - 48) * 8 + (d.toNat - 48)) * 8 + (e.toNat - 48)).toUInt8 :: acc) cs'
          else readQuoted q (((c.toNat - 48) * 8 + (d.toNat - 48)).toUInt8 :: acc) (e :: cs')
        else readQuoted q ((c.toNat - 48).toUInt8 :: acc) (d :: e :: cs')
      | cs => readQuoted q ((c.toNat - 48).toUInt8 :: acc) cs
    else match escapeOf? c with
      | some b => readQuoted q (b :: acc) cs
      | none => none
  | acc, c :: cs =>
    if c = q then some (acc.reverse, cs)
    else if c = '\n' || c = '\\' then none
    else readQuoted q ((singleton c).toUTF8.toList.reverse ++ acc) cs
termination_by _ cs => cs.length

/-- Cuts a text into tokens, each of at least one character. -/
def tokensGo : Nat → List Char → Option (List Token)
  | 0, _ => none
  | fuel + 1, cs =>
    match cs with
    | [] => some []
    | c :: rest =>
      if c = ' ' || c = '\t' || c = '\n' || c = '\r' || c.toNat = 11 || c.toNat = 12 then tokensGo fuel rest
      else if c = '#' then tokensGo fuel (rest.dropWhile (· != '\n'))
      else if startsWord c then
        (tokensGo fuel (rest.dropWhile inWord)).map (.word (c :: rest.takeWhile inWord) :: ·)
      else if c.isDigit || c = '+' || c = '-' || (c = '.' && rest.head?.any Char.isDigit) then
        (tokensGo fuel (rest.dropWhile inNumber)).map (.number (c :: rest.takeWhile inNumber) :: ·)
      else if c = '"' || c = '\'' then
        match readQuoted c [] rest with
        | none => none
        | some (bytes, rest) => (tokensGo fuel rest).map (.quoted bytes :: ·)
      else (tokensGo fuel rest).map (.mark c :: ·)

def tokens (cs : List Char) : Option (List Token) := tokensGo (cs.length + 1) cs

/-! ## Reading -/

/-- The whole number of a token: decimal, octal after a zero, or hexadecimal after `0x`. -/
def wholeNumber? (cs : List Char) : Option Int :=
  let (sign, ds) : Int × List Char := match cs with
    | '-' :: ds => (-1, ds)
    | '+' :: ds => (1, ds)
    | ds => (1, ds)
  match ds with
  | '0' :: x :: hs =>
    if x = 'x' || x = 'X' then
      if hs.isEmpty then none
      else (hs.mapM hexOf?).map fun ns => sign * (ns.foldl (fun n d => n * 16 + d) 0 : Nat)
    else if (x :: hs).all isOctal then
      some (sign * ((x :: hs).foldl (fun n d => n * 8 + (d.toNat - 48)) 0 : Nat))
    else none
  | [] => none
  | ds => if ds.all Char.isDigit then some (sign * (Text.natOfDigits ds : Nat)) else none

def joinQuoted : List UInt8 → List Token → List UInt8 × List Token
  | acc, .quoted b :: ts => joinQuoted (acc ++ b) ts
  | acc, ts => (acc, ts)

def readAtom (f : Field) : List Token → Option (Doc × List Token)
  | .quoted b :: ts =>
    match f.kind with
    | .text =>
      let (bytes, ts) := joinQuoted b ts
      (fromUTF8? ⟨bytes.toArray⟩).map fun s => (.str s, ts)
    | _ => none
  | .word cs :: ts =>
    let w := ofList cs
    match f.kind with
    | .flag =>
      if w == "true" || w == "t" || w == "True" then some (.bool true, ts)
      else if w == "false" || w == "f" || w == "False" then some (.bool false, ts)
      else none
    | .choice e => if (numberOf? e w).isSome then some (.str w, ts) else none
    | _ => none
  | .number cs :: ts =>
    match wholeNumber? cs with
    | none => none
    | some n =>
      match f.kind with
      | .int32 => if -(Int.pow 2 31) ≤ n && n < Int.pow 2 31 then some (.int n, ts) else none
      | .uint64 => if 0 ≤ n && n < Int.pow 2 64 then some (.str (Text.ofInt n), ts) else none
      | .flag => if n = 0 then some (.bool false, ts) else if n = 1 then some (.bool true, ts) else none
      | .choice e => if -(Int.pow 2 31) ≤ n && n < Int.pow 2 31 then some (choiceDoc e (.int n), ts) else none
      | _ => none
  | _ => none

def skipSeparator : List Token → List Token
  | .mark ',' :: ts => ts
  | .mark ';' :: ts => ts
  | ts => ts

def put (f : Field) (v : Doc) (fs : List (String × Doc)) : List (String × Doc) :=
  mergeFields shape fs [(f.name, if f.many then .arr [v] else v)]

mutual

/-- Reads the fields of a message up to the closing mark, if there is one. -/
def readFields (shape : String) (close : Option Char) :
    Nat → List (String × Doc) → List Token → Option (List (String × Doc) × List Token)
  | 0, _, _ => none
  | fuel + 1, fs, ts =>
    match ts with
    | [] => if close.isNone then some (fs, []) else none
    | .mark c :: rest => if close = some c then some (fs, rest) else none
    | .word w :: rest =>
      match field? shape (ofList w) with
      | none => none
      | some f =>
        match readField shape f fuel fs rest with
        | none => none
        | some (fs, rest) => readFields shape close fuel fs (skipSeparator rest)
    | _ => none

def readField (shape : String) (f : Field) :
    Nat → List (String × Doc) → List Token → Option (List (String × Doc) × List Token)
  | 0, _, _ => none
  | fuel + 1, fs, ts =>
    match f.kind, ts with
    | .message _, .mark ':' :: .mark '[' :: rest => readList shape f fuel fs rest
    | .message _, .mark '[' :: rest => readList shape f fuel fs rest
    | .message _, .mark ':' :: rest => readItem shape f fuel fs rest
    | .message _, rest => readItem shape f fuel fs rest
    | _, .mark ':' :: .mark '[' :: rest => if f.many then readList shape f fuel fs rest else none
    | _, .mark ':' :: rest => readItem shape f fuel fs rest
    | _, _ => none

def readItem (shape : String) (f : Field) :
    Nat → List (String × Doc) → List Token → Option (List (String × Doc) × List Token)
  | 0, _, _ => none
  | fuel + 1, fs, ts =>
    match f.kind with
    | .message inner =>
      let open? : Option (Char × List Token) := match ts with
        | .mark '\x7b' :: rest => some ('\x7d', rest)
        | .mark '<' :: rest => some ('>', rest)
        | _ => none
      match open? with
      | none => none
      | some (close, rest) =>
        (readFields inner (some close) fuel [] rest).map fun (v, rest) => (put shape f (.obj v) fs, rest)
    | _ => (readAtom f ts).map fun (v, rest) => (put shape f v fs, rest)

def readList (shape : String) (f : Field) :
    Nat → List (String × Doc) → List Token → Option (List (String × Doc) × List Token)
  | 0, _, _ => none
  | fuel + 1, fs, ts =>
    match ts with
    | .mark ']' :: rest => some (fs, rest)
    | ts =>
      match readItem shape f fuel fs ts with
      | some (fs, .mark ',' :: rest) => readList shape f fuel fs rest
      | some (fs, .mark ']' :: rest) => some (fs, rest)
      | _ => none

end

def ofText? (s : String) : Option Doc :=
  match tokens s.toList with
  | none => none
  | some ts =>
    (readFields shape none (4 * ts.length + 4) [] ts).map fun (fs, _) => normal shape (.obj fs)

end Vetting.Message
