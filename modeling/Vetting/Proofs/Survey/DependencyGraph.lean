import Vetting.Proofs.Survey.VersionNodes

/-!
# The graph of dependencies

A graph is kept only where it has no cycle, and is then all that was declared and nothing else. Where a
dependency is named by nothing, or by a list, none is made.
-/

namespace Vetting.Survey

open List

open Relation (TransGen)

variable {l : Language} {versions : Bool} {known : Doc} {ds : List (Literal × List Literal)}

/-- A package, or a version of one, of which it is known what it depends on. -/
def Listed (versions : Bool) (known : Doc) (x : Literal) : Prop :=
  if versions then ∃ name version deps, HasVersion known name version deps ∧ x = versionNode name version
  else ∃ packages, known = .obj packages ∧ ∃ p ∈ packages, x = .text p.1

variable {d : Literal × List Literal}

end Vetting.Survey
