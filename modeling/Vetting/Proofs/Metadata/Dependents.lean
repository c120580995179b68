import Vetting.Metadata.Graph
import Vetting.Proofs.Graph.Acyclic
import Vetting.Proofs.Graph.Part

/-!
# Packages that depend on one

The search goes on from each package as often as it meets it.
-/

namespace Vetting.Metadata

open List Relation

/-- A search ends just if it does not go too deep, and has then found more packages, each once. -/
structure Outcome (shallow : Prop) (new : Literal → Prop) (old : List Literal) (r : Dependents × Bool) : Prop where
  ends : r.2 = true ↔ shallow
  nodup : r.2 = true → r.1.found.Nodup
  mem_iff : r.2 = true → ∀ b, b ∈ r.1.found ↔ b ∈ old ∨ new b

/-- Looks at one package that depends on another, unless the search was given up. -/
def visit (g : Graph) (root : Literal) (depth : Nat) (s : Dependents × Bool) (p : Literal) : Dependents × Bool :=
  if !s.2 then (s.1, false)
  else
    let d := { s.1 with visited := s.1.visited ++ [p] }
    if Literal.same p root then (d, true)
    else dependentsGo g root depth p (if Literal.isIn p d.found then d else { d with found := d.found ++ [p] })

section Search

variable {g : Graph} {root : String} {depth : Nat} {a b : Literal} {d : Dependents}

theorem same_text_iff {s : String} : Literal.same a (.text s) = true ↔ a = .text s :=
  (Literal.same_iff rfl).trans Literal.value?_eq_text_iff

variable (hg : g.IsProper)

include hg

end Search

end Vetting.Metadata
