import Vetting.Literal.Reader

/-!
# Looking into literals

Every access may fail, and so may a comparison: values of different kinds have no order.
-/

namespace Vetting.Literal

variable (x : Literal) (k : String)

/-- Whether a text occurs in a value: as a part of it, an item or a key. -/
def has : Except Fault Bool :=
  match x with
  | .text s => .ok (Text.contains s k)
  | .list xs => .ok (isIn (.text k) xs)
  | .tuple xs => .ok (isIn (.text k) xs)
  | .set xs => .ok (isIn (.text k) xs)
  | .dict es => .ok (isIn (.text k) (es.map Prod.fst))
  | _ => .error (.cause .wrongType)

def «at» : Except Fault Literal :=
  match x with
  | .dict es =>
    match keyed? es (.text k) with
    | some v => .ok v
    | .none => .error (.missingKey (Text.quoted k))
  | _ => .error (.cause .wrongType)

def find : Except Fault Literal :=
  match x with
  | .dict es => .ok ((keyed? es (.text k)).getD .none)
  | _ => .error (.cause .noMember)

/-- The items of a value: characters of a text, keys of a dictionary. -/
def items : Except Fault (List Literal) :=
  match x with
  | .text s => .ok (s.toList.map fun c => .text (String.ofList [c]))
  | .bytes bs => .ok (bs.map fun b => .int b.toNat)
  | .list xs => .ok xs
  | .tuple xs => .ok xs
  | .set xs => .ok xs
  | .dict es => .ok (es.map Prod.fst)
  | _ => .error (.cause .wrongType)

def entries : Except Fault (List (Literal × Literal)) :=
  match x with
  | .dict es => .ok es
  | _ => .error (.cause .noMember)

def isDict : Literal → Bool
  | .dict _ => true
  | _ => false

def asText : Literal → Except Fault String
  | .text s => .ok s
  | _ => .error (.cause .wrongType)

def insert (xs : List Literal) (x : Literal) : Except Fault (List Literal) :=
  if !isKey x then .error (.cause .wrongType)
  else .ok (if isIn x xs then xs else xs ++ [x])

end Vetting.Literal

namespace Vetting

def insertDescending {α : Type} (less : α → α → Except Fault Bool) (x : α) : List α → Except Fault (List α)
  | [] => .ok [x]
  | y :: ys => do
    if ← less y x then return x :: y :: ys
    return y :: (← insertDescending less x ys)

def sortDescending {α : Type} (less : α → α → Except Fault Bool) (xs : List α) : Except Fault (List α) :=
  xs.foldlM (fun sorted x => insertDescending less x sorted) []

namespace Literal

def lessDecimal (m e n f : Int) : Bool :=
  if e ≤ f then m < n * Int.pow 10 (f - e).toNat else m * Int.pow 10 (e - f).toNat < n

mutual

def less : Literal → Literal → Except Fault Bool
  | .text s, .text t => .ok (Text.lt s t)
  | .bytes s, .bytes t => .ok (s < t)
  | .list xs, .list ys => lessItems xs ys
  | .tuple xs, .tuple ys => lessItems xs ys
  | x, y =>
    match number? x, number? y with
    | some (m, e), some (n, f) => .ok (lessDecimal m e n f)
    | _, _ => .error (.cause .wrongType)

def lessItems : List Literal → List Literal → Except Fault Bool
  | [], [] => .ok false
  | [], _ :: _ => .ok true
  | _ :: _, [] => .ok false
  | x :: xs, y :: ys => if same x y then lessItems xs ys else less x y

end

end Literal

end Vetting
