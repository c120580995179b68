import Vetting.Package.Name
import Vetting.Text.Digit
import Vetting.Time

/-!
# Choosing among the versions of a package

`thin` keeps at most a given number of versions: of those that are numbers, one for each stretch of time,
counted back from the first one listed.
-/

namespace Vetting.Package

abbrev Release := String × Time.Stamp

variable (v : String) (x : Rat) (rs : List Release)

def versionCore : List Char := Text.stripChars (· = 'v') v.toList

def isNumeric : Bool := Text.allDigits ((versionCore v).filter (· != '.'))

def maxDigits : Nat := 4300

def componentValue (cs : List Char) : Except Fault Nat :=
  if cs.all Text.isDecimal && cs.length ≤ maxDigits then
    .ok (cs.foldl (fun n c => n * 10 + Text.decimalValue c) 0)
  else .error (.cause .badValue)

def components : Except Fault (List Nat) :=
  (Text.splitChars ['.'] (versionCore v)).mapM componentValue

def nearestInt : Int :=
  let k := x.floor
  if x - k < 1 / 2 then k
  else if 1 / 2 < x - k then k + 1
  else k + k % 2

def exponentOf : Int :=
  let e : Int := Nat.log2 x.num.toNat - Nat.log2 x.den
  if (2 : Rat) ^ e ≤ x then e else e - 1

def ulp : Rat := 2 ^ (exponentOf x - 52)

def toFloating : Rat :=
  if x < 0 then -(nearestInt (-x / ulp (-x)) * ulp (-x)) else nearestInt (x / ulp x) * ulp x

def truncate : Int := if x < 0 then x.ceil else x.floor

/-- How many whole gaps a release lies before the newest one, cut off toward zero. Seconds and their quotient are
floating-point numbers. -/
def window (newest : Time.Stamp) (gapDays : Int) (t : Time.Stamp) : Except Fault Int := do
  let d ← newest.sub t
  if gapDays = 0 then throw (.cause .divisionByZero)
  return truncate (toFloating (toFloating (d / 1000000) / toFloating (gapDays * 86400)))

def comparable : Bool :=
  rs.all (fun r => r.2.offset.isSome) || rs.all (fun r => r.2.offset.isNone)

def newestFirst : Except Fault (List Release) :=
  if comparable rs then .ok (rs.mergeSort fun r s => s.2.universal ≤ r.2.universal)
  else .error (.cause .wrongType)

def groupRuns {α : Type} : List (Int × α) → List (List α)
  | [] => []
  | (k, x) :: rest =>
    match rest, groupRuns rest with
    | (k', _) :: _, g :: gs => if k = k' then (x :: g) :: gs else [x] :: g :: gs
    | _, gs => [x] :: gs

def greatest : Except Fault (List Release) := do
  let keyed ← rs.mapM fun r => do return (← components r.1, r)
  return ((keyed.mergeSort fun a b => !decide (a.1 < b.1)).map Prod.snd).take 1

/-- One release for each stretch of time, from the newest to the oldest, but at most `limit`. -/
def onePerWindow (limit : Int) (newest : Time.Stamp) (gapDays : Int) (rs : List Release) :
    Except Fault (List Release) := do
  let sorted ← newestFirst rs
  let keyed ← sorted.mapM fun r => do return (← window newest gapDays r.2, r)
  let chosen ← (groupRuns keyed).mapM greatest
  return chosen.flatten.take limit.toNat

/-- At most `limit` releases. A short list is kept as it is, else only numeric versions are; a limit that is not
positive keeps all of these. -/
def thin (limit gapDays : Option Int) (rs : List Release) : Except Fault (List Release) := do
  let some limit := limit | throw (.cause .wrongType)
  if (rs.length : Int) ≤ limit then return rs
  let rs := rs.filter fun r => isNumeric r.1
  let some first := rs.head? | return []
  if limit ≤ 0 then return rs
  let some gapDays := gapDays | throw (.cause .wrongType)
  if gapDays.natAbs > 999999999 then throw (.cause .overflow)
  if (rs.length : Int) ≤ limit then return rs
  onePerWindow limit first.2 gapDays rs

end Vetting.Package
