/-!
# Tables that remember the order of insertion

A list of pairs with different keys, oldest first. Setting a key that is there keeps its place.
-/

namespace Vetting

abbrev Table (κ α : Type) := List (κ × α)

namespace Table

variable {κ α β : Type} [BEq κ]

def get? (t : Table κ α) (k : κ) : Option α := (t.find? (fun p => p.1 == k)).map Prod.snd

def has (t : Table κ α) (k : κ) : Bool := t.any (fun p => p.1 == k)

def set : Table κ α → κ → α → Table κ α
  | [], k, v => [(k, v)]
  | p :: t, k, v => if p.1 == k then (p.1, v) :: t else p :: set t k v

def erase (t : Table κ α) (k : κ) : Table κ α := t.filter (fun p => !(p.1 == k))

def keys (t : Table κ α) : List κ := t.map Prod.fst

def values (t : Table κ α) : List α := t.map Prod.snd

def setDefault (t : Table κ α) (k : κ) (v : α) : Table κ α := if t.has k then t else t ++ [(k, v)]

def modify (t : Table κ α) (k : κ) (d : α) (f : α → α) : Table κ α :=
  t.set k (f ((t.get? k).getD d))

def ofPairs (ps : List (κ × α)) : Table κ α := ps.foldl (fun t p => t.set p.1 p.2) []

def update (t u : Table κ α) : Table κ α := u.foldl (fun t p => t.set p.1 p.2) t

end Table

def addNew {α : Type} [BEq α] (xs : List α) (x : α) : List α := if xs.contains x then xs else xs ++ [x]

def distinct {α : Type} [BEq α] (xs : List α) : List α := xs.foldl addNew []

end Vetting
