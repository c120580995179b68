import Vetting.Proofs.Fault
import Vetting.Proofs.Graph.Acyclic
import Vetting.Proofs.Literal
import Vetting.Proofs.Workflow.Order
import Vetting.Survey.Dependencies

/-!
# Nodes of versions

The node of a version is the text of the pair of its name and number, which can be read back.
-/

namespace Vetting

open List Graph Job

variable {ds : List (Literal × List Literal)}

namespace Survey

/-! ## The graph of what was declared -/

/-- It was declared that what counts as `v` depends on what counts as `w`. -/
def Needs (ds : List (Literal × List Literal)) (v w : Option (ℚ ⊕ String)) : Prop :=
  ∃ d ∈ ds, d.1.value? = v ∧ ∃ n ∈ d.2, n.value? = w

/-- The nodes are all that a declaration names, and the edges are the declarations. -/
structure IsGraphOf (g : Graph) (ds : List (Literal × List Literal)) : Prop where
  nodup : g.values.Nodup
  nodes : ∀ v, v ∈ g.values ↔ ∃ d ∈ ds, ∃ n ∈ d.1 :: d.2, n.value? = v
  edges : ∀ v w, g.Leads v w ↔ Needs ds v w

section IsGraphOf

variable {g : Graph} {ds : List (Literal × List Literal)} {p n : Literal} {deps : List Literal}

theorem IsGraphOf.addNode (hg : IsGraphOf g ds) (hp : p.value?.isSome) :
    IsGraphOf (g.addNode p) (ds ++ [(p, [])]) where
  nodup := nodup_values_addNode hp hg.nodup
  nodes v := by
    rw [mem_values_addNode hp, hg.nodes]
    simp [or_and_right, exists_or, eq_comm]
  edges v w := by
    rw [leads_addNode, hg.edges]
    simp [Needs]

theorem IsGraphOf.addEdge (hg : IsGraphOf g (ds ++ [(p, deps)])) (hp : p.value?.isSome) (hn : n.value?.isSome) :
    IsGraphOf (g.addEdge p n) (ds ++ [(p, deps ++ [n])]) where
  nodup := by
    rw [values, names_addEdge]
    exact nodup_values_addNode hn (nodup_values_addNode hp hg.nodup)
  nodes v := by
    have hold := hg.nodes v
    rw [values, names_addEdge, ← values, mem_values_addNode hn, mem_values_addNode hp]
    simp only [mem_append, mem_cons, or_and_right, exists_or, exists_eq_left, not_mem_nil, or_false,
      @eq_comm _ v] at hold ⊢
    rw [or_iff_left_of_imp fun heq => hold.2 (.inr (.inl heq)), hold, or_assoc, or_assoc]
  edges v w := by
    have hold := hg.edges v w
    rw [leads_addEdge hp hn]
    simp only [Needs, mem_append, mem_singleton, or_and_right, exists_or, exists_eq_left,
      @eq_comm _ v, @eq_comm _ w] at hold ⊢
    rw [hold, and_or_left, or_assoc]

end IsGraphOf

/-- What is known about a version of a package: what it depends on. -/
def HasVersion (known : Doc) (name version : String) (deps : List (String × Doc)) : Prop :=
  ∃ packages versions, known = .obj packages ∧ (name, .obj versions) ∈ packages ∧ (version, .obj deps) ∈ versions

variable {x : Literal} {known : Doc}

end Survey

namespace Workflow.Plan

end Workflow.Plan

namespace Survey

open Workflow (Plan)

end Survey

end Vetting
