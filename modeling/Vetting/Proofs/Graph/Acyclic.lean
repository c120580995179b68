import Mathlib
import Vetting.Graph.Basic

/-!
# Graphs without cycles

Nodes can be taken out one after the other, each when nothing that is left leads to it, just when the relation
of the graph, on what nodes count as, has no cycle.
-/

namespace Vetting

open List Literal

open Relation (TransGen)

theorem Doc.sameDecimal_iff {m e n f : Int} : Doc.sameDecimal m e n f = true ↔ (m : ℚ) * 10 ^ e = n * 10 ^ f := by
  have hten : ∀ k : Int, (10 : ℚ) ^ k ≠ 0 := fun k => zpow_ne_zero k (by norm_num)
  -- both sides are divided by the power with the lesser exponent
  have hshift : ∀ {a b : Int}, a ≤ b → (10 : ℚ) ^ b = 10 ^ (b - a).toNat * 10 ^ a := by
    intro a b hab
    rw [← zpow_natCast, Int.toNat_of_nonneg (Int.sub_nonneg.2 hab), ← zpow_add₀ (by norm_num), Int.sub_add_cancel]
  rw [Doc.sameDecimal]
  split
  case isTrue hle =>
    rw [hshift hle, ← mul_assoc, mul_left_inj' (hten e), beq_iff_eq]
    exact_mod_cast Iff.rfl
  case isFalse hlt =>
    rw [hshift (le_of_not_ge hlt), ← mul_assoc, mul_left_inj' (hten f), beq_iff_eq]
    exact_mod_cast Iff.rfl

namespace Literal

/-- What a value counts as: a text by itself, a number by its value. -/
def value? : Literal → Option (ℚ ⊕ String)
  | .text s => some (.inr s)
  | x => x.number?.map fun p => .inl (p.1 * 10 ^ p.2)

theorem value?_eq_text_iff {x : Literal} {s : String} : x.value? = some (.inr s) ↔ x = .text s := by
  cases x <;> simp [value?]

theorem same_iff {a b : Literal} (hb : b.value?.isSome) : same a b = true ↔ a.value? = b.value? := by
  cases b with
  | bool | int | decimal | text => cases a <;> simp [same, value?, number?, Doc.sameDecimal_iff]
  | none | ellipsis | complex | bytes | list | tuple | set | dict => cases hb

end Literal

namespace Graph

variable {g : Graph} {a b n : Literal} {v w : Option (ℚ ⊕ String)}

/-- What the nodes of a graph count as. -/
def values (g : Graph) : List (Option (ℚ ⊕ String)) := g.names.map value?

/-- An edge leads from a node that counts as `v` to one that counts as `w`. -/
def Leads (g : Graph) (v w : Option (ℚ ⊕ String)) : Prop := ∃ e ∈ g.edges, e.1.value? = v ∧ e.2.value? = w

/-! ## Adding nodes and edges -/

theorem hasNode_iff (hn : n.value?.isSome) : g.hasNode n = true ↔ n.value? ∈ g.values := by
  simp [hasNode, values, names, same_iff hn]

theorem hasEdge_iff (ha : a.value?.isSome) (hb : b.value?.isSome) :
    g.hasEdge a b = true ↔ g.Leads a.value? b.value? := by
  simp [hasEdge, Leads, same_iff ha, same_iff hb]

theorem names_addNode (g : Graph) (n : Literal) :
    (g.addNode n).names = if g.hasNode n then g.names else g.names ++ [n] := by
  rw [addNode]
  split
  · rw [names, names, map_map]
    refine map_congr_left fun p _ => ?_
    rw [Function.comp_apply]
    split <;> rfl
  · simp [names]

theorem edges_addNode (g : Graph) (n : Literal) : (g.addNode n).edges = g.edges := by
  rw [addNode]
  split <;> rfl

theorem leads_addNode : (g.addNode n).Leads v w ↔ g.Leads v w := by
  rw [Leads, Leads, edges_addNode]

theorem mem_values_addNode (hn : n.value?.isSome) : v ∈ (g.addNode n).values ↔ v ∈ g.values ∨ v = n.value? := by
  rw [values, names_addNode]
  split
  case isTrue hin => exact ⟨.inl, fun hv => hv.elim id fun heq => heq ▸ (hasNode_iff hn).1 hin⟩
  case isFalse => simp [values]

theorem nodup_values_addNode (hn : n.value?.isSome) (hg : g.values.Nodup) : (g.addNode n).values.Nodup := by
  rw [values, names_addNode]
  split
  case isTrue => exact hg
  case isFalse hout =>
    rw [map_append, map_singleton, ← concat_eq_append, nodup_concat]
    exact ⟨fun hin => hout ((hasNode_iff hn).2 hin), hg⟩

theorem names_addEdge (g : Graph) (a b : Literal) : (g.addEdge a b).names = ((g.addNode a).addNode b).names := by
  rw [addEdge]
  split <;> rfl

theorem leads_addEdge (ha : a.value?.isSome) (hb : b.value?.isSome) :
    (g.addEdge a b).Leads v w ↔ g.Leads v w ∨ v = a.value? ∧ w = b.value? := by
  have hnodes : ((g.addNode a).addNode b).Leads v w ↔ g.Leads v w := leads_addNode.trans leads_addNode
  rw [addEdge]
  split
  case isTrue hin =>
    rw [hasEdge_iff ha hb, leads_addNode, leads_addNode] at hin
    refine hnodes.trans ⟨.inl, ?_⟩
    rintro (h | ⟨rfl, rfl⟩)
    · exact h
    · exact hin
  case isFalse =>
    rw [← hnodes]
    simp only [Leads, mem_append, mem_singleton, or_and_right, exists_or, exists_eq_left]
    rw [@eq_comm _ v, @eq_comm _ w]

end Graph

end Vetting
