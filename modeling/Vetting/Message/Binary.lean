import Vetting.Message.Basic

/-!
# Messages as bytes

A field is a key, made of its number and the kind of its value, and the value: a number in groups of seven
bits, or a length and that many bytes.
-/

namespace Vetting.Message

/-! ## Writing -/

def varintGo : Nat → Nat → List UInt8
  | 0, _ => []
  | fuel + 1, n =>
    if n < 128 then [n.toUInt8] else (128 + n % 128).toUInt8 :: varintGo fuel (n / 128)

def varint (n : Int) : List UInt8 := varintGo 10 (n % Int.pow 2 64).toNat

variable (f : Field) (shape : String)

def key (wire : Nat) : List UInt8 := varint (f.number * 8 + wire : Nat)

def sized (bytes : List UInt8) : List UInt8 := varint bytes.length ++ bytes

def atomBytes (d : Doc) : List UInt8 :=
  match f.kind with
  | .text => key f 2 ++ sized (d.strD "").toUTF8.toList
  | .flag => key f 0 ++ varint (if d.truthy then 1 else 0)
  | .int32 => key f 0 ++ varint (wholeOf d)
  | .uint64 => key f 0 ++ varint (wholeOf d)
  | .choice e => key f 0 ++ varint (choiceNumber e d)
  | .message _ => key f 2 ++ sized []

mutual

def fieldsBytes (shape : String) : List (String × Doc) → List UInt8
  | [] => []
  | (k, v) :: fs =>
    (match field? shape k with
      | none => []
      | some f => fieldBytes f v) ++ fieldsBytes shape fs

def fieldBytes (f : Field) : Doc → List UInt8
  | .arr xs => itemsBytes f xs
  | .obj fs =>
    match f.kind with
    | .message shape => key f 2 ++ sized (fieldsBytes shape fs)
    | _ => []
  | d => atomBytes f d

def itemsBytes (f : Field) : List Doc → List UInt8
  | [] => []
  | d :: ds => fieldBytes f d ++ itemsBytes f ds

end

def toBytes (d : Doc) : List UInt8 := fieldsBytes shape d.fieldsOf

def readVarint : Nat → List UInt8 → Option (Nat × List UInt8)
  | 0, _ => none
  | _, [] => none
  | fuel + 1, b :: bs =>
    if b.toNat < 128 then some (b.toNat, bs)
    else (readVarint fuel bs).map fun (n, bs) => (b.toNat - 128 + 128 * n, bs)

def signed32 (n : Nat) : Int := Int.bmod n (Nat.pow 2 32)

def numberDoc (n : Nat) : Doc :=
  match f.kind with
  | .flag => .bool (n % Nat.pow 2 64 != 0)
  | .int32 => .int (signed32 n)
  | .uint64 => .str (Text.ofNat (n % Nat.pow 2 64))
  | .choice e => choiceDoc e (.int (signed32 n))
  | _ => .null

def add (f : Field) (v : Doc) (fs : List (String × Doc)) : List (String × Doc) :=
  mergeFields shape fs [(f.name, if f.many then .arr [v] else v)]

/-- Reads the fields of a message. A field takes at least one byte and a nested message fewer than its holder, so
the number of bytes bounds the steps. -/
def readBytes : Nat → String → List (String × Doc) → List UInt8 → Option (List (String × Doc))
  | 0, _, _, _ => none
  | fuel + 1, shape, fs, bs =>
    if bs.isEmpty then some fs
    else
      match readVarint 10 bs with
      | none => none
      | some (k, bs) =>
        let f? := (fieldsOf shape).find? fun f => f.number == k / 8
        if k / 8 = 0 then none
        else if k % 8 = 0 then
          match readVarint 10 bs with
          | none => none
          | some (n, bs) =>
            let fs := match f? with
              | some f => match f.kind with
                | .text => fs
                | .message _ => fs
                | _ => add shape f (numberDoc f n) fs
              | none => fs
            readBytes fuel shape fs bs
        else if k % 8 = 2 then
          match readVarint 10 bs with
          | none => none
          | some (n, bs) =>
            if bs.length < n then none
            else
              let body := bs.take n
              let rest := bs.drop n
              match f? with
              | none => readBytes fuel shape fs rest
              | some f =>
                match f.kind with
                | .text =>
                  match String.fromUTF8? ⟨body.toArray⟩ with
                  | none => none
                  | some s => readBytes fuel shape (add shape f (.str s) fs) rest
                | .message inner =>
                  match readBytes fuel inner [] body with
                  | none => none
                  | some v => readBytes fuel shape (add shape f (.obj v) fs) rest
                | _ => readBytes fuel shape fs rest
        else if k % 8 = 1 then if bs.length < 8 then none else readBytes fuel shape fs (bs.drop 8)
        else if k % 8 = 5 then if bs.length < 4 then none else readBytes fuel shape fs (bs.drop 4)
        else none

def ofBytes? (bs : List UInt8) : Option Doc :=
  (readBytes (bs.length + 1) shape [] bs).map fun fs => normal shape (.obj fs)

end Vetting.Message
