import Vetting.Proofs.Fault
import Vetting.Proofs.Workflow.Order

/-!
# The operators of a plan

A package gets an order only where its key was not met before, so no operator waits for itself over others.
-/

namespace Vetting

open List

namespace Graph

variable {g : Graph} {a b : String}

theorem names_removeNode (g : Graph) (b : String) :
    (g.removeNode (.text b)).names = g.names.filter fun n => !Literal.same n (.text b) := by
  rw [names, names, filter_map]
  rfl

theorem OfNames.removeNode (hg : g.OfNames) (b : String) : (g.removeNode (.text b)).OfNames := by
  have hnames := g.names_removeNode b
  refine ⟨fun n hn => ?_, ?_, fun e he => ?_⟩
  · rw [hnames] at hn
    exact hg.named n (mem_filter.1 hn).1
  · rw [hnames]
    exact hg.nodup.filter _
  · obtain ⟨he, hout⟩ := mem_filter.1 he
    simp only [Bool.not_or, Bool.and_eq_true] at hout
    rw [hnames]
    exact ⟨mem_filter.2 ⟨(hg.ends e he).1, hout.1⟩, mem_filter.2 ⟨(hg.ends e he).2, hout.2⟩⟩

end Graph

namespace Workflow.Plan

variable {d : Draft} {visited : List String}

section Keys

variable {p : Plan}

end Keys

/-- Whether the task of a key waits for that of another one after some visits. -/
def Upward (p : Plan) (g : Graph) (visited : List String) (k j : String) : Prop :=
  ∃ a, p.TakenUp g visited a ∧ p.key a = k ∧ ∃ b ∈ g.dependencies a, p.key b = j ∧ j ≠ k

theorem Upward.met {p : Plan} {g : Graph} {k j : String} (h : p.Upward g visited k j) : p.Met g visited j := by
  obtain ⟨a, ha, -, b, hb, hj, -⟩ := h
  exact met_iff.2 (.inr ⟨a, ha, b, hb, hj⟩)

section Unnamed

variable {p : Plan} (hskips : p.skipsUnnamed = true)

include hskips

variable {g : Graph} (hg : g.OfNames)

include hg

end Unnamed

end Workflow.Plan

end Vetting
