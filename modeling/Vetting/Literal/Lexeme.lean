import Vetting.Literal.Basic

/-!
# Numbers and quoted texts in source form

Numbers in their four bases, with underscores between digits, and texts between single or triple quotes with
their escapes and marks.
-/

namespace Vetting.Literal

open Char

/-- Reads digits of a class with single underscores between them. -/
def digitRun (p : Char → Bool) : List Char → List Char × List Char
  | '_' :: c :: cs =>
    if p c then
      let (ds, rest) := digitRun p cs
      (c :: ds, rest)
    else ([], '_' :: c :: cs)
  | c :: cs =>
    if p c then
      let (ds, rest) := digitRun p cs
      (c :: ds, rest)
    else ([], c :: cs)
  | [] => ([], [])

def digits? (p : Char → Bool) (cs : List Char) : Option (List Char × List Char) :=
  match cs with
  | c :: _ => if p c then some (digitRun p cs) else .none
  | [] => .none

def ofBase (base : Nat) (ds : List Char) : Nat :=
  ds.foldl (fun n c => n * base + (Doc.hexValue? c).getD 0) 0

def basedNumber (base : Nat) (p : Char → Bool) (cs : List Char) : Option (Literal × List Char) :=
  let cs := match cs with
    | '_' :: rest => rest
    | cs => cs
  (digits? p cs).map fun (ds, rest) => (.int (ofBase base ds), rest)

variable (cs : List Char)

def exponent : Option Int × List Char :=
  let after (sign : Int) (ds : List Char) : Option Int × List Char :=
    match digits? isDigit ds with
    | some (ds, rest) => (some (sign * ofBase 10 ds), rest)
    | .none => (.none, cs)
  match cs with
  | e :: rest =>
    if e = 'e' || e = 'E' then
      match rest with
      | '-' :: ds => after (-1) ds
      | '+' :: ds => after 1 ds
      | ds => after 1 ds
    else (.none, cs)
  | [] => (.none, cs)

/-- Reads a number in base ten, which starts with a zero only if it is zero. -/
def tenNumber : Option (Literal × List Char) :=
  let (whole, rest) := (digits? isDigit cs).getD ([], cs)
  let (point, fraction, rest) := match rest with
    | '.' :: rest =>
      let (ds, rest) := (digits? isDigit rest).getD ([], rest)
      (true, ds, rest)
    | rest => (false, [], rest)
  if whole.isEmpty && fraction.isEmpty then .none
  else
    let (e?, rest) := exponent rest
    match rest with
    | 'j' :: rest => some (.complex, rest)
    | 'J' :: rest => some (.complex, rest)
    | rest =>
      if !point && e?.isNone then
        if whole.head? = some '0' && whole.any (· != '0') then .none
        else some (.int (ofBase 10 whole), rest)
      else some (.decimal (ofBase 10 (whole ++ fraction)) (e?.getD 0 - fraction.length), rest)

def readNumber : Option (Literal × List Char) :=
  let hex (c : Char) : Bool := (Doc.hexValue? c).isSome
  let read? := match cs with
    | '0' :: 'x' :: rest => basedNumber 16 hex rest
    | '0' :: 'X' :: rest => basedNumber 16 hex rest
    | '0' :: 'o' :: rest => basedNumber 8 (fun c => '0' ≤ c && c ≤ '7') rest
    | '0' :: 'O' :: rest => basedNumber 8 (fun c => '0' ≤ c && c ≤ '7') rest
    | '0' :: 'b' :: rest => basedNumber 2 (fun c => c = '0' || c = '1') rest
    | '0' :: 'B' :: rest => basedNumber 2 (fun c => c = '0' || c = '1') rest
    | cs => tenNumber cs
  match read? with
  | some (n, c :: rest) => if Text.isWordChar c then .none else some (n, c :: rest)
  | r => r

/-! ## Quoted texts -/

inductive QuoteKind where
  | plain
  | bytes
  | formatted
deriving BEq, DecidableEq, Inhabited

/-- The mark of a quoted text: its kind, and whether backslashes stand for themselves. -/
def quoteMark? : Option (QuoteKind × Bool) :=
  let w := String.ofList (cs.map toLower)
  if w = "" || w = "u" then some (.plain, false)
  else if w = "r" then some (.plain, true)
  else if w = "b" then some (.bytes, false)
  else if w = "br" || w = "rb" then some (.bytes, true)
  else if w = "f" then some (.formatted, false)
  else if w = "fr" || w = "rf" then some (.formatted, true)
  else .none

def hexNumber? (ds : List Char) : Option Nat :=
  ds.foldl (fun n c => match n, Doc.hexValue? c with
    | some n, some d => some (n * 16 + d)
    | _, _ => .none) (some 0)

def simpleEscape? : Char → Option Char
  | '\\' => some '\\'
  | '\'' => some '\''
  | '"' => some '"'
  | 'a' => some (ofNat 7)
  | 'b' => some (ofNat 8)
  | 'f' => some (ofNat 12)
  | 'n' => some '\n'
  | 'r' => some '\r'
  | 't' => some '\t'
  | 'v' => some (ofNat 11)
  | _ => .none

def codeEscape? (width : Nat) (cs : List Char) : Option Nat :=
  if (cs.take width).length = width then hexNumber? (cs.take width) else .none

def isOctal (c : Char) : Bool := '0' ≤ c && c ≤ '7'

/-- Resolves escapes; the number counts the characters that still have to be passed over. -/
def unescape (kind : QuoteKind) : Nat → List Char → Option (List Char)
  | _, [] => some []
  | k + 1, _ :: cs => unescape kind k cs
  | 0, '\\' :: c :: cs =>
    if c = '\n' then unescape kind 1 (c :: cs)
    else match simpleEscape? c with
      | some d => (unescape kind 1 (c :: cs)).map (d :: ·)
      | .none =>
        if isOctal c then
          let ds := (c :: cs.take 2).takeWhile isOctal
          let n := ofBase 8 ds
          (unescape kind ds.length (c :: cs)).map (ofNat (if kind = .bytes then n % 256 else n) :: ·)
        else
          let width := if c = 'x' then 2 else if kind = .bytes then 0
            else if c = 'u' then 4 else if c = 'U' then 8 else 0
          if c = 'N' && kind != .bytes then .none
          else if width = 0 then (unescape kind 0 (c :: cs)).map ('\\' :: ·)
          else match codeEscape? width cs with
            | some n =>
              if n < 0x110000 then (unescape kind (width + 1) (c :: cs)).map (Doc.charOf n :: ·)
              else .none
            | .none => .none
  | 0, c :: cs => (unescape kind 0 cs).map (c :: ·)

/-- Reads up to a closing quote; a line end may only stand after a backslash. -/
def untilQuote (q : Char) : List Char → List Char → Option (List Char × List Char)
  | _, [] => .none
  | acc, '\\' :: c :: cs => untilQuote q (c :: '\\' :: acc) cs
  | acc, c :: cs =>
    if c = q then some (acc.reverse, cs)
    else if c = '\n' then .none
    else untilQuote q (c :: acc) cs

def untilTriple (q : Char) : List Char → List Char → Option (List Char × List Char)
  | _, [] => .none
  | acc, '\\' :: c :: cs => untilTriple q (c :: '\\' :: acc) cs
  | acc, c :: cs =>
    if c = q && cs.take 2 == [q, q] then some (acc.reverse, cs.drop 2)
    else untilTriple q (c :: acc) cs

def betweenQuotes : List Char → Option (List Char × List Char)
  | q :: cs =>
    if q = '\'' || q = '"' then
      if cs.take 2 == [q, q] then untilTriple q [] (cs.drop 2) else untilQuote q [] cs
    else .none
  | [] => .none

/-- Reads a quoted text with its mark: its kind, its characters and the rest. -/
def readQuoted : Option (QuoteKind × List Char × List Char) :=
  match quoteMark? (cs.takeWhile isAlpha) with
  | .none => .none
  | some (kind, raw) =>
    match betweenQuotes (cs.dropWhile isAlpha) with
    | .none => .none
    | some (body, rest) =>
      if kind = .bytes && body.any (fun c => 128 ≤ c.toNat) then .none
      else match if raw then some body else unescape kind 0 body with
        | some s => some (kind, s, rest)
        | .none => .none

def startsQuoted : Bool :=
  (quoteMark? (cs.takeWhile isAlpha)).isSome &&
    match (cs.dropWhile isAlpha).head? with
    | some c => c = '\'' || c = '"'
    | .none => false

end Vetting.Literal
