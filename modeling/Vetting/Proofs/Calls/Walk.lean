import Vetting.Calls.Tree
import Vetting.Proofs.Fault

/-!
# What a walk over a tree comes to

A walk is a loop over a list of nodes, `Tree.entered`, so that what it reports can be told by an induction
over a list instead of one over the tree.
-/

namespace Vetting.Calls.Tree

open List

variable {ι : Type}

mutual

/-- The nodes that a walk enters: those that are not skipped and not below a skipped one. -/
def entered (skips : ι → Bool) : Tree ι → List (Tree ι)
  | .node i fs => if skips i then [] else .node i fs :: enteredFields skips fs
  | .list ts => enteredItems skips ts
  | _ => []

def enteredFields (skips : ι → Bool) : List (String × Tree ι) → List (Tree ι)
  | [] => []
  | (_, t) :: fs => entered skips t ++ enteredFields skips fs

def enteredItems (skips : ι → Bool) : List (Tree ι) → List (Tree ι)
  | [] => []
  | t :: ts => entered skips t ++ enteredItems skips ts

end

section Walk

variable {β : Type} {m : Type → Type} [Monad m] (skips : ι → Bool) (enter : β → Tree ι → m β)

mutual

theorem walk_eq_foldlM [LawfulMonad m] (t : Tree ι) (b : β) :
    t.walk skips enter b = (t.entered skips).foldlM enter b := by
  cases t with
  | node i fs =>
    rw [walk, entered]
    split
    · rfl
    · rw [foldlM_cons]
      exact bind_congr fun b' => walkFields_eq_foldlM fs b'
  | list ts => exact walkItems_eq_foldlM ts b
  | word | number | empty => rfl

theorem walkFields_eq_foldlM [LawfulMonad m] (fs : List (String × Tree ι)) (b : β) :
    walkFields skips enter fs b = (enteredFields skips fs).foldlM enter b := by
  match fs with
  | [] => rfl
  | (_, t) :: fs =>
    rw [walkFields, enteredFields, foldlM_append, walk_eq_foldlM t b]
    exact bind_congr fun b' => walkFields_eq_foldlM fs b'

theorem walkItems_eq_foldlM [LawfulMonad m] (ts : List (Tree ι)) (b : β) :
    walkItems skips enter ts b = (enteredItems skips ts).foldlM enter b := by
  match ts with
  | [] => rfl
  | t :: ts =>
    rw [walkItems, enteredItems, foldlM_append, walk_eq_foldlM t b]
    exact bind_congr fun b' => walkItems_eq_foldlM ts b'

end

end Walk

/-! ## What a walk misses -/

mutual

theorem nodes_subset_of_mem {s : Tree ι} (t : Tree ι) (hs : s ∈ t.nodes) : s.nodes ⊆ t.nodes := by
  cases t with
  | node i fs =>
    rw [nodes] at hs
    rcases mem_cons.1 hs with rfl | hs
    · exact List.Subset.refl _
    · rw [nodes]
      exact subset_cons_of_subset _ (nodes_subset_of_mem_fields fs hs)
  | list ts => exact nodes_subset_of_mem_items ts hs
  | word | number | empty => cases hs

theorem nodes_subset_of_mem_fields {s : Tree ι} (fs : List (String × Tree ι))
    (hs : s ∈ nodesOfFields fs) : s.nodes ⊆ nodesOfFields fs := by
  match fs with
  | [] => cases hs
  | (_, t) :: fs =>
    rw [nodesOfFields] at hs ⊢
    rcases mem_append.1 hs with hs | hs
    · exact subset_append_of_subset_left _ (nodes_subset_of_mem t hs)
    · exact subset_append_of_subset_right _ (nodes_subset_of_mem_fields fs hs)

theorem nodes_subset_of_mem_items {s : Tree ι} (ts : List (Tree ι)) (hs : s ∈ nodesOfItems ts) :
    s.nodes ⊆ nodesOfItems ts := by
  match ts with
  | [] => cases hs
  | t :: ts =>
    rw [nodesOfItems] at hs ⊢
    rcases mem_append.1 hs with hs | hs
    · exact subset_append_of_subset_left _ (nodes_subset_of_mem t hs)
    · exact subset_append_of_subset_right _ (nodes_subset_of_mem_items ts hs)

end

theorem nodesOfItems_append (ts us : List (Tree ι)) :
    nodesOfItems (ts ++ us) = nodesOfItems ts ++ nodesOfItems us := by
  induction ts with
  | nil => rfl
  | cons t ts ih => rw [cons_append, nodesOfItems, nodesOfItems, ih, append_assoc]

theorem mem_nodes_self {t : Tree ι} {i : ι} (h : t.info? = some i) : t ∈ t.nodes := by
  cases t with
  | node j fs => rw [nodes]; exact mem_cons_self
  | list | word | number | empty => cases h

theorem nodes_field_subset (t : Tree ι) (k : String) : ((t.field? k).getD .empty).nodes ⊆ t.nodes := by
  cases t with
  | node i fs =>
    rw [nodes, field?]
    refine subset_cons_of_subset _ ?_
    induction fs with
    | nil => exact List.Subset.refl _
    | cons p fs ih =>
      rw [nodesOfFields, lookup_cons]
      split
      · exact subset_append_left _ _
      · exact subset_append_of_subset_right _ ih
  | list | word | number | empty => exact nil_subset _

section Missed

variable (skips : ι → Bool) (p : Tree ι → Bool)

mutual

theorem entered_sublist (t : Tree ι) : (t.entered skips).Sublist t.nodes := by
  cases t with
  | node i fs =>
    rw [entered, nodes]
    split
    · exact nil_sublist _
    · exact (enteredFields_sublist fs).cons_cons _
  | list ts => exact enteredItems_sublist ts
  | word | number | empty => exact List.Sublist.refl _

theorem enteredFields_sublist (fs : List (String × Tree ι)) :
    (enteredFields skips fs).Sublist (nodesOfFields fs) := by
  match fs with
  | [] => exact List.Sublist.refl _
  | (_, t) :: fs => exact (entered_sublist t).append (enteredFields_sublist fs)

theorem enteredItems_sublist (ts : List (Tree ι)) : (enteredItems skips ts).Sublist (nodesOfItems ts) := by
  match ts with
  | [] => exact List.Sublist.refl _
  | t :: ts => exact (entered_sublist t).append (enteredItems_sublist ts)

end

/-- None of some nodes is skipped while it, or a node below it, is one that `p` tells. -/
def NoneHidden (ns : List (Tree ι)) : Prop :=
  ∀ s ∈ ns, s.info?.any skips = true → ∀ n ∈ s.nodes, p n = false

theorem noneHidden_append {ns ms : List (Tree ι)} :
    NoneHidden skips p (ns ++ ms) ↔ NoneHidden skips p ns ∧ NoneHidden skips p ms := by
  simp only [NoneHidden, mem_append, or_imp, forall_and]

theorem countP_append_eq_iff {es ns es' ns' : List (Tree ι)} (h : es.Sublist ns) (h' : es'.Sublist ns') :
    (es ++ es').countP p = (ns ++ ns').countP p ↔ es.countP p = ns.countP p ∧ es'.countP p = ns'.countP p := by
  have hle : es.countP p ≤ ns.countP p := h.countP_le
  have hle' : es'.countP p ≤ ns'.countP p := h'.countP_le
  rw [countP_append, countP_append]
  omega

mutual

theorem countP_entered_eq_iff (t : Tree ι) :
    (t.entered skips).countP p = t.nodes.countP p ↔ NoneHidden skips p t.nodes := by
  cases t with
  | node i fs =>
    by_cases hi : skips i = true
    · -- nothing is entered, so nothing may be there to be missed
      rw [entered, if_pos hi, countP_nil, eq_comm, countP_eq_zero]
      constructor
      · intro hnone s hs _ n hn
        simpa using hnone n (nodes_subset_of_mem _ hs hn)
      · intro hnone n hn
        simpa using hnone (.node i fs) (by simp [nodes]) (by simpa [info?] using hi) n hn
    · have hfields : NoneHidden skips p (Tree.node i fs).nodes ↔ NoneHidden skips p (nodesOfFields fs) := by
        have hhead : (Tree.node i fs).info?.any skips = false := by simpa [info?] using hi
        simp [NoneHidden, nodes, hhead]
      rw [entered, if_neg hi, hfields, ← countP_enteredFields_eq_iff fs, nodes, countP_cons,
        countP_cons, Nat.add_right_cancel_iff]
  | list ts => exact countP_enteredItems_eq_iff ts
  | word | number | empty => simp [entered, nodes, NoneHidden]

theorem countP_enteredFields_eq_iff (fs : List (String × Tree ι)) :
    (enteredFields skips fs).countP p = (nodesOfFields fs).countP p ↔ NoneHidden skips p (nodesOfFields fs) := by
  match fs with
  | [] => simp [enteredFields, nodesOfFields, NoneHidden]
  | (_, t) :: fs =>
    rw [enteredFields, nodesOfFields, noneHidden_append, ← countP_entered_eq_iff t, ← countP_enteredFields_eq_iff fs]
    exact countP_append_eq_iff p (entered_sublist skips t) (enteredFields_sublist skips fs)

theorem countP_enteredItems_eq_iff (ts : List (Tree ι)) :
    (enteredItems skips ts).countP p = (nodesOfItems ts).countP p ↔ NoneHidden skips p (nodesOfItems ts) := by
  match ts with
  | [] => simp [enteredItems, nodesOfItems, NoneHidden]
  | t :: ts =>
    rw [enteredItems, nodesOfItems, noneHidden_append, ← countP_entered_eq_iff t, ← countP_enteredItems_eq_iff ts]
    exact countP_append_eq_iff p (entered_sublist skips t) (enteredItems_sublist skips ts)

end

end Missed

theorem entered_all (t : Tree ι) : t.entered (fun _ => false) = t.nodes := by
  have hcount := (countP_entered_eq_iff (fun _ => false) (fun _ => true) t).2 (by simp [NoneHidden])
  exact (entered_sublist _ t).eq_of_length (by simpa using hcount)

/-- If each step that adds an item is right about the steps before it, all are, in order. -/
theorem foldlM_reports {α β γ : Type} {f : β → α → Except Fault β} {p : α → Bool}
    (out : β → List γ) (Inv : List α → β → Prop) (R : List α → α → γ → Prop)
    (hstep : ∀ before a b b', Inv before b → f b a = .ok b' → Inv (before ++ [a]) b' ∧
      if p a then ∃ c, R before a c ∧ out b' = out b ++ [c] else out b' = out b)
    (before : List α) {xs : List α} {b b' : β} (hinv : Inv before b)
    (hrun : xs.foldlM f b = .ok b') :
    ∃ new, out b' = out b ++ new ∧ List.Forall₂ (fun a c => ∃ pre post, before ++ xs = pre ++ a :: post ∧ R pre a c)
        (xs.filter p) new := by
  induction xs generalizing before b with
  | nil =>
    cases hrun
    exact ⟨[], by simp, .nil⟩
  | cons a xs ih =>
    rw [foldlM_cons, bind_eq_ok_iff] at hrun
    obtain ⟨b₁, ha, hrest⟩ := hrun
    obtain ⟨hinv₁, hout⟩ := hstep before a b b₁ hinv ha
    obtain ⟨new, hnew, hall⟩ := ih (before ++ [a]) hinv₁ hrest
    rw [append_assoc, singleton_append] at hall
    by_cases hp : p a = true
    · rw [if_pos hp] at hout
      obtain ⟨c, hc, hout⟩ := hout
      refine ⟨c :: new, by simp [hnew, hout], ?_⟩
      rw [filter_cons_of_pos hp]
      exact .cons ⟨before, xs, rfl, hc⟩ hall
    · rw [if_neg hp] at hout
      refine ⟨new, by rw [hnew, hout], ?_⟩
      rwa [filter_cons_of_neg hp]

end Vetting.Calls.Tree
