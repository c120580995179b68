import Vetting.Literal.Basic

/-!
# Directed graphs

Nodes in the order in which they were first named, and successors in the order in which the edges came.

Where successors are found only by asking, a breadth-first search asks each node that it meets for the first
time. `Reachable` is the relation that it decides.
-/

namespace Vetting

structure Graph where
  nodes : List (Literal × Table String Literal) := []
  edges : List (Literal × Literal) := []
deriving Inhabited, BEq

namespace Graph

variable (g : Graph) (n : Literal)

def names : List Literal := g.nodes.map Prod.fst

def hasNode : Bool := g.nodes.any fun p => Literal.same p.1 n

def hasEdge (a b : Literal) : Bool :=
  g.edges.any fun e => Literal.same e.1 a && Literal.same e.2 b

def addNode (attributes : Table String Literal := []) : Graph :=
  if g.hasNode n then
    { g with nodes := g.nodes.map fun p => if Literal.same p.1 n then (p.1, p.2.update attributes) else p }
  else { g with nodes := g.nodes ++ [(n, attributes)] }

def addEdge (a b : Literal) : Graph :=
  let g := (g.addNode a).addNode b
  if g.hasEdge a b then g else { g with edges := g.edges ++ [(a, b)] }

def successors : List Literal :=
  (g.edges.filter fun e => Literal.same e.1 n).map Prod.snd

def predecessors : List Literal :=
  (g.edges.filter fun e => Literal.same e.2 n).map Prod.fst

def restrict (keep : List Literal) : Graph :=
  { nodes := g.nodes.filter fun p => Literal.isIn p.1 keep
    edges := g.edges.filter fun e => Literal.isIn e.1 keep && Literal.isIn e.2 keep }

def removeNode : Graph :=
  { nodes := g.nodes.filter fun p => !Literal.same p.1 n
    edges := g.edges.filter fun e => !(Literal.same e.1 n || Literal.same e.2 n) }

/-- The nodes that can be reached from a list, each once, breadth first. -/
def reachGo (g : Graph) : Nat → List Literal → List Literal → List Literal
  | 0, seen, _ => seen
  | _ + 1, seen, [] => seen
  | fuel + 1, seen, n :: queue =>
    let next := (g.successors n).foldl (fun (seen, queue) m =>
      if Literal.isIn m seen then (seen, queue) else (seen ++ [m], queue ++ [m])) (seen, queue)
    reachGo g fuel next.1 next.2

def reach : List Literal := reachGo g (g.nodes.length + 1) [n] [n]

/-- Takes out nodes without predecessors: the nodes in that order, unless there is a cycle. -/
def sortGo (g : Graph) : Nat → List Literal → List Literal → Option (List Literal)
  | 0, acc, left => if left.isEmpty then some acc.reverse else none
  | fuel + 1, acc, left =>
    match left.find? fun n => !(g.predecessors n).any fun m => Literal.isIn m left with
    | none => if left.isEmpty then some acc.reverse else none
    | some n => sortGo g fuel (n :: acc) (left.filter fun m => !Literal.same m n)

def topological? : Option (List Literal) := sortGo g g.nodes.length [] g.names

def isAcyclic : Bool := g.topological?.isSome

/-- `Reachable next v w`: there is a path from `v` to `w`, possibly of no step. -/
inductive Reachable {α : Type} (next : α → List α) : α → α → Prop where
  | refl (v : α) : Reachable next v v
  | step {v w x : α} : Reachable next v w → x ∈ next w → Reachable next v x

variable {m : Type → Type} [Monad m] {α : Type} [BEq α]

/-- One round of the search: a node met before leaves the queue, a new one is asked for its successors, which
join it. In the end the nodes asked are the result, in order. -/
def closureStep (ask : α → m (List α)) : List α × List α → m (List α × List α ⊕ List α)
  | (visited, []) => return .inr visited
  | (visited, v :: queue) =>
    if visited.contains v then return .inl (visited, queue)
    else do
      let ws ← ask v
      let visited := visited ++ [v]
      return .inl (visited, queue ++ ws.filter fun w => !visited.contains w)

def closure (ask : α → m (List α)) (start : α) : m (List α) :=
  repeatM (closureStep ask) ([], [start])

end Graph

end Vetting
