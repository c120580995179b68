import Vetting.Document.Basic
import Vetting.Text.Blank

/-!
# Points in time

A stamp is a wall-clock time, with or without the offset of its clock from universal time. Two stamps can be
compared and subtracted only if both have an offset or neither has.
-/

namespace Vetting.Time

open Text

variable (y m n : Nat) (cs : List Char)

def isLeap : Bool := (y % 4 = 0 && y % 100 != 0) || y % 400 = 0

def monthDays : Nat :=
  if m = 2 then (if isLeap y then 29 else 28)
  else if m = 4 || m = 6 || m = 9 || m = 11 then 30 else 31

def daysBeforeYear : Nat := (y - 1) * 365 + (y - 1) / 4 - (y - 1) / 100 + (y - 1) / 400

def daysBeforeMonth : Nat := (List.range (m - 1)).foldl (fun n k => n + monthDays y (k + 1)) 0

def dayNumber (d : Nat) : Nat := daysBeforeYear y + daysBeforeMonth y m + d

def monthOf (y : Nat) : Nat → Nat → Nat → Nat × Nat
  | 0, m, d => (m, d)
  | fuel + 1, m, d => if d ≤ monthDays y m then (m, d) else monthOf y fuel (m + 1) (d - monthDays y m)

def dateOf : Nat × Nat × Nat :=
  let k := n - 1
  let q400 := k / 146097
  let k := k % 146097
  let q100 := min (k / 36524) 3
  let k := k - q100 * 36524
  let q4 := k / 1461
  let k := k % 1461
  let q1 := min (k / 365) 3
  let k := k - q1 * 365
  let y := 400 * q400 + 100 * q100 + 4 * q4 + q1 + 1
  let (m, d) := monthOf y 12 1 (k + 1)
  (y, m, d)

/-! ## Stamps -/

def dayMicros : Int := 86400000000

/-- The microseconds of the clock since the start of day 0, and its offset in seconds, if known. -/
structure Stamp where
  micros : Int
  offset : Option Int := none
deriving BEq, DecidableEq, Inhabited

namespace Stamp

/-- A stamp from its parts, if they name a day and a time of day. -/
def ofParts? (y m d h mi s us : Nat) (offset : Option Int := none) : Option Stamp :=
  if 1 ≤ y && y ≤ 9999 && 1 ≤ m && m ≤ 12 && 1 ≤ d && d ≤ monthDays y m && h < 24 && mi < 60
      && s < 60 && us < 1000000 then
    some { micros := (dayNumber y m d : Int) * dayMicros
             + (((h * 60 + mi) * 60 + s) * 1000000 + us : Nat)
           offset }
  else none

variable (t : Stamp)

def universal : Int := t.micros - t.offset.getD 0 * 1000000

def sub (u : Stamp) : Except Fault Int :=
  if t.offset.isSome == u.offset.isSome then .ok (t.universal - u.universal)
  else .error (.cause .wrongType)

def lt (u : Stamp) : Except Fault Bool := (t.sub u).map (· < 0)

def naive : Stamp := { t with offset := none }

def addDays (n : Int) : Stamp := { t with micros := t.micros + n * dayMicros }

def parts : Nat × Nat × Nat × Nat × Nat × Nat × Nat :=
  let day := (t.micros / dayMicros).toNat
  let us := (t.micros % dayMicros).toNat
  let (y, m, d) := dateOf day
  (y, m, d, us / 3600000000, us / 60000000 % 60, us / 1000000 % 60, us % 1000000)

def two (n : Nat) : String := padLeft '0' 2 (ofNat n)

def dateText : String :=
  let (y, m, d, _) := t.parts
  padLeft '0' 4 (ofNat y) ++ "-" ++ two m ++ "-" ++ two d

def clockText : String :=
  let (_, _, _, h, mi, s, _) := t.parts
  two h ++ ":" ++ two mi ++ ":" ++ two s

def offsetText (n : Int) : String :=
  let a := n.natAbs
  let sign := if n < 0 then "-" else "+"
  let base := sign ++ two (a / 3600) ++ ":" ++ two (a / 60 % 60)
  if a % 60 = 0 then base else base ++ ":" ++ two (a % 60)

/-- The text of a stamp, with `sep` between date and time. -/
def textWith (sep : String) (t : Stamp) : String :=
  let (_, _, _, _, _, _, us) := t.parts
  t.dateText ++ sep ++ t.clockText ++ (if us = 0 then "" else "." ++ padLeft '0' 6 (ofNat us))
    ++ (match t.offset with | none => "" | some n => offsetText n)

def text : String := textWith "T" t

end Stamp

def readDigits : Option (Nat × List Char) :=
  let ds := cs.take n
  if ds.length = n && ds.all (fun c => '0' ≤ c && c ≤ '9') then some (natOfDigits ds, cs.drop n)
  else none

def readChar (c : Char) : List Char → Option (List Char)
  | d :: cs => if c = d then some cs else none
  | [] => none

/-- Reads a fraction of a second to the microsecond; further digits are dropped. -/
def readFraction : Nat × List Char :=
  match cs with
  | p :: rest =>
    if p = '.' || p = ',' then
      let ds := rest.takeWhile fun c => '0' ≤ c && c ≤ '9'
      (natOfDigits ((ds ++ List.replicate 6 '0').take 6), rest.drop ds.length)
    else (0, cs)
  | [] => (0, cs)

def readOffset : Option (Option Int) :=
  match cs with
  | [] => some none
  | ['Z'] => some (some 0)
  | s :: rest =>
    if s = '+' || s = '-' then do
      let (h, rest) ← readDigits 2 rest
      let rest := (readChar ':' rest).getD rest
      let (m, rest) ← if rest.isEmpty then some (0, []) else readDigits 2 rest
      let (sec, rest) ← if rest.isEmpty then some (0, []) else do
        let rest := (readChar ':' rest).getD rest
        readDigits 2 rest
      if rest.isEmpty && h < 24 && m < 60 then
        let n : Int := (h * 3600 + m * 60 + sec : Nat)
        some (some (if s = '-' then -n else n))
      else none
    else none

/-- Reads a standard text: a date, and if something follows it a time of day and an offset. -/
def readStandard : Option Stamp := do
  let (y, cs) ← readDigits 4 cs
  let cs ← readChar '-' cs
  let (m, cs) ← readDigits 2 cs
  let cs ← readChar '-' cs
  let (d, cs) ← readDigits 2 cs
  match cs with
  | [] => Stamp.ofParts? y m d 0 0 0 0
  | _ :: cs => do
    let (h, cs) ← readDigits 2 cs
    let (mi, cs) ← match readChar ':' cs with
      | some cs => readDigits 2 cs
      | none => some (0, cs)
    let (s, cs) ← match readChar ':' cs with
      | some cs => readDigits 2 cs
      | none => some (0, cs)
    let (us, cs) := readFraction cs
    let offset ← readOffset cs
    Stamp.ofParts? y m d h mi s us offset

def Stamp.ofText? (s : String) : Option Stamp := readStandard s.toList

/-!
## Dates from outside

Year, month and day with dashes, slashes or dots between them, a time after a `T` or blanks, and perhaps an
offset. Where the middle number cannot be a month, day and month have changed places.
-/

def readUpTo : Option (Nat × List Char) :=
  let ds := (cs.take n).takeWhile Char.isDigit
  if ds.isEmpty then none else some (natOfDigits ds, cs.drop ds.length)

def readSeparator : List Char → Option (List Char)
  | c :: cs => if c = '-' || c = '/' || c = '.' then some cs else none
  | [] => none

/-- Reads a date with separators, or eight digits. -/
def readDate : Option ((Nat × Nat × Nat) × List Char) :=
  match readDigits 8 cs with
  | some (_, rest) => do
    let (y, cs) ← readDigits 4 cs
    let (m, cs) ← readDigits 2 cs
    let (d, _) ← readDigits 2 cs
    return ((y, m, d), rest)
  | none => do
    let (y, cs) ← readDigits 4 cs
    let cs ← readSeparator cs
    let (m, cs) ← readUpTo 2 cs
    let cs ← readSeparator cs
    let (d, cs) ← readUpTo 2 cs
    return ((if 12 < m && d ≤ 12 then (y, d, m) else (y, m, d)), cs)

def readZone : Option (Option Int) :=
  let cs := stripChars isBlank cs
  let w := String.ofList cs
  if w = "Z" || w = "z" || w = "UTC" || w = "GMT" then some (some 0) else readOffset cs

def readTime : Option ((Nat × Nat × Nat × Nat) × Option Int) := do
  let (h, cs) ← readUpTo 2 cs
  let cs ← readChar ':' cs
  let (mi, cs) ← readDigits 2 cs
  match readChar ':' cs with
  | none => do
    let offset ← readZone cs
    return ((h, mi, 0, 0), offset)
  | some cs => do
    let (s, cs) ← readDigits 2 cs
    let (us, cs) := readFraction cs
    let offset ← readZone cs
    return ((h, mi, s, us), offset)

def readStamp (s : String) : Option Stamp := do
  let ((y, m, d), cs) ← readDate (stripChars isBlank s.toList)
  let cs := match cs with
    | 'T' :: cs => cs
    | cs => stripStart isBlank cs
  if cs.isEmpty then Stamp.ofParts? y m d 0 0 0 0
  else
    let ((h, mi, sec, us), offset) ← readTime cs
    Stamp.ofParts? y m d h mi sec us offset

def ofDoc (d : Doc) : Except Fault Stamp :=
  match d with
  | .str s =>
    match readStamp s with
    | some t => .ok t
    | none => .error (.cause .badDate)
  | _ => .error (.cause .wrongType)

end Vetting.Time
