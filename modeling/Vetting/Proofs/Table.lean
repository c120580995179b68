import Mathlib
import Vetting.Table

/-!
# Looking up what tables hold

Proofs look at tables through `get?` only, so that the order of the entries does not matter to them.
-/

namespace Vetting

open List

namespace Table

variable {κ α : Type} [BEq κ]

theorem has_eq_isSome_get? (t : Table κ α) (k : κ) : t.has k = (t.get? k).isSome := by
  rw [has, get?, Option.isSome_map, Bool.eq_iff_iff, find?_isSome]
  exact any_eq_true

@[simp] theorem get?_nil (k : κ) : get? ([] : Table κ α) k = none := rfl

theorem get?_append (t u : Table κ α) (k : κ) : (t ++ u).get? k = (t.get? k).or (u.get? k) := by
  rw [get?, get?, get?, find?_append, Option.map_or]

section Lawful

variable [LawfulBEq κ]

theorem get?_cons (p : κ × α) (t : Table κ α) (k : κ) [Decidable (p.1 = k)] :
    get? (p :: t) k = if p.1 = k then some p.2 else t.get? k := by
  by_cases h : p.1 = k
  · simp [get?, h]
  · have hb : (p.1 == k) = false := by simpa using h
    simp [get?, h, hb]

theorem get?_filter (t : Table κ α) (keep : κ → Bool) {k : κ} (hk : keep k = true) :
    Table.get? (t.filter fun p => keep p.1) k = t.get? k := by
  rw [get?, get?, find?_filter]
  congr 2
  funext p
  by_cases hp : p.1 = k <;> simp [hp, hk]

theorem get?_set [DecidableEq κ] (t : Table κ α) (k j : κ) (v : α) :
    (t.set k v).get? j = if k = j then some v else t.get? j := by
  induction t with
  | nil => rw [set, get?_cons]
  | cons p t ih =>
    rw [set]
    by_cases hp : p.1 = k
    · rw [if_pos (by simpa using hp), get?_cons, get?_cons, ← hp]
      by_cases hj : p.1 = j <;> simp [hj]
    · rw [if_neg (by simpa using hp), get?_cons, get?_cons, ih]
      by_cases hj : p.1 = j
      · have hk : k ≠ j := fun hk => hp (hj.trans hk.symm)
        simp [hj, hk]
      · simp [hj]

theorem mem_set {t : Table κ α} {k : κ} {v : α} {p : κ × α} (h : p ∈ t.set k v) : p ∈ t ∨ p = (k, v) := by
  induction t with
  | nil => exact .inr (mem_singleton.1 h)
  | cons q t ih =>
    rw [set] at h
    split at h
    case isTrue hq =>
      rcases mem_cons.1 h with rfl | hp
      · exact .inr (by rw [eq_of_beq hq])
      · exact .inl (mem_cons_of_mem _ hp)
    case isFalse =>
      rcases mem_cons.1 h with rfl | hp
      · exact .inl mem_cons_self
      · exact (ih hp).imp_left (mem_cons_of_mem _)

theorem mem_of_get? {t : Table κ α} {k : κ} {v : α} (h : t.get? k = some v) : (k, v) ∈ t := by
  obtain ⟨p, hp, rfl⟩ := Option.map_eq_some_iff.1 h
  have hkey : p.1 = k := by simpa using find?_some hp
  subst hkey
  exact mem_of_find?_eq_some hp

theorem get?_of_mem {t : Table κ α} (ht : t.keys.Nodup) {k : κ} {v : α} (h : (k, v) ∈ t) : t.get? k = some v := by
  induction t with
  | nil => cases h
  | cons p t ih =>
    obtain ⟨hp, ht⟩ := nodup_cons.1 ht
    rcases mem_cons.1 h with rfl | hmem
    · simp [get?]
    · have hne : (p.1 == k) = false := by
        simpa using fun hk : p.1 = k => hp (hk ▸ mem_map_of_mem hmem)
      have hrest := ih ht hmem
      rw [get?] at hrest ⊢
      rw [find?_cons, hne]
      exact hrest

theorem set_singleton (k : κ) (v w : α) : Table.set [(k, v)] k w = [(k, w)] := by
  simp [set]

@[simp] theorem set_set (t : Table κ α) (k : κ) (v w : α) : (t.set k v).set k w = t.set k w := by
  induction t with
  | nil => exact set_singleton k v w
  | cons p t ih =>
    by_cases hp : p.1 == k <;> simp [set, hp, ih]

theorem set_of_notMem {t : Table κ α} {k : κ} (hk : k ∉ t.keys) (v : α) : t.set k v = t ++ [(k, v)] := by
  induction t with
  | nil => rfl
  | cons p t ih =>
    obtain ⟨hp, ht⟩ : k ≠ p.1 ∧ k ∉ keys t := by simpa [keys] using hk
    rw [set, if_neg (by simpa using Ne.symm hp), ih ht, cons_append]

theorem set_append_singleton {t : Table κ α} {k : κ} (hk : k ∉ t.keys) (v w : α) :
    Table.set (t ++ [(k, v)]) k w = t ++ [(k, w)] := by
  induction t with
  | nil => exact set_singleton k v w
  | cons p t ih =>
    obtain ⟨hp, ht⟩ : k ≠ p.1 ∧ k ∉ keys t := by simpa [keys] using hk
    rw [cons_append, set, if_neg (by simpa using Ne.symm hp), ih ht, cons_append]

theorem get?_modify [DecidableEq κ] (t : Table κ α) (k j : κ) (d : α) (f : α → α) :
    (t.modify k d f).get? j = if k = j then some (f ((t.get? k).getD d)) else t.get? j :=
  get?_set t k j _

theorem get?_setDefault [DecidableEq κ] (t : Table κ α) (k j : κ) (v : α) :
    (t.setDefault k v).get? j = (t.get? j).or (if k = j then some v else none) := by
  rw [setDefault, has_eq_isSome_get?]
  split
  case isTrue hk =>
    by_cases hj : k = j
    · subst hj
      rw [Option.or_of_isSome hk]
    · rw [if_neg hj, Option.or_none]
  case isFalse => rw [get?_append, get?_cons, get?_nil]

theorem get?_eq_lookup (t : Table κ α) (k : κ) : t.get? k = t.lookup k := by
  induction t with
  | nil => rfl
  | cons p t ih =>
    have hkey : (p.1 == k) = (k == p.1) := BEq.comm
    rw [lookup_cons, ← ih, get?, find?_cons, hkey]
    cases k == p.1 <;> rfl

theorem isSome_get? (t : Table κ α) (k : κ) : (t.get? k).isSome = true ↔ k ∈ t.keys := by
  rw [← has_eq_isSome_get?, has, keys, any_eq_true, mem_map]
  simp

theorem keys_set (t : Table κ α) (k : κ) (v : α) : (t.set k v).keys = addNew t.keys k := by
  induction t with
  | nil => simp [set, keys, addNew]
  | cons p t ih =>
    rw [set]
    by_cases hp : p.1 = k
    · simp [hp, keys, addNew]
    · have hk : k ≠ p.1 := fun h => hp h.symm
      rw [if_neg (by simpa using hp)]
      simp only [keys, map_cons] at ih ⊢
      rw [ih, addNew, addNew]
      by_cases hmem : k ∈ t.map Prod.fst <;> simp [hmem, hk]

theorem keys_modify (t : Table κ α) (k : κ) (d : α) (f : α → α) :
    (t.modify k d f).keys = addNew t.keys k := keys_set t k _

theorem mem_modify {t : Table κ α} {k : κ} {d : α} {f : α → α} {p : κ × α}
    (h : p ∈ t.modify k d f) : p ∈ t ∨ p = (k, f ((t.get? k).getD d)) := by
  rcases mem_set h with hp | hp
  · exact .inl hp
  · exact .inr hp

/-! ### Pairs set one after another -/

theorem keys_ofPairs (ps : List (κ × α)) : (ofPairs ps).keys = distinct (ps.map Prod.fst) := by
  have hfold : ∀ t : Table κ α, (ps.foldl (fun t p => t.set p.1 p.2) t).keys =
      (ps.map Prod.fst).foldl addNew t.keys := by
    induction ps with
    | nil => exact fun _ => rfl
    | cons p ps ih =>
      intro t
      rw [foldl_cons, ih, keys_set, map_cons, foldl_cons]
  exact hfold []

theorem ofPairs_eq_self {ps : List (κ × α)} (h : (ps.map Prod.fst).Nodup) : ofPairs ps = ps := by
  induction ps using List.reverseRecOn with
  | nil => rfl
  | append_singleton ps p ih =>
    rw [map_append, map_singleton, nodup_append] at h
    have hp : p.1 ∉ keys ps := fun hmem => h.2.2 p.1 hmem p.1 (mem_singleton.2 rfl) rfl
    rw [ofPairs, foldl_append, ← ofPairs, ih h.1, foldl_cons, foldl_nil, set_of_notMem hp]

theorem get?_update [DecidableEq κ] {u : Table κ α} (hu : u.keys.Nodup) (t : Table κ α) (k : κ) :
    (t.update u).get? k = (u.get? k).or (t.get? k) := by
  induction u generalizing t with
  | nil => rfl
  | cons p u ih =>
    obtain ⟨hp, hu⟩ : p.1 ∉ keys u ∧ (keys u).Nodup := by simpa [keys] using hu
    have hstep : t.update (p :: u) = (t.set p.1 p.2).update u := rfl
    rw [hstep, ih hu, get?_set, get?_cons]
    split
    case isTrue hk =>
      have hnone : get? u k = none := by
        rw [← Option.not_isSome_iff_eq_none, isSome_get?, ← hk]
        exact hp
      rw [hnone, Option.none_or, Option.some_or]
    case isFalse => rfl

theorem exists_of_get?_ofPairs [DecidableEq κ] {ps : List (κ × α)} {k : κ} {v : α}
    (h : (ofPairs ps).get? k = some v) :
    ∃ before after, ps = before ++ (k, v) :: after ∧ ∀ p ∈ after, p.1 ≠ k := by
  induction ps using List.reverseRecOn with
  | nil => cases h
  | append_singleton ps p ih =>
    rw [ofPairs, foldl_append, foldl_cons, foldl_nil, get?_set] at h
    split at h
    case isTrue hk =>
      obtain rfl := Option.some.inj h
      exact ⟨ps, [], by rw [← hk], by simp⟩
    case isFalse hk =>
      obtain ⟨before, after, rfl, hafter⟩ := ih h
      refine ⟨before, after ++ [p], by simp, fun q hq => ?_⟩
      rcases mem_append.1 hq with hq | hq
      · exact hafter q hq
      · exact mem_singleton.1 hq ▸ hk

theorem mem_of_get?_ofPairs [DecidableEq κ] {ps : List (κ × α)} {k : κ} {v : α}
    (h : (ofPairs ps).get? k = some v) : (k, v) ∈ ps := by
  obtain ⟨before, after, rfl, -⟩ := exists_of_get?_ofPairs h
  simp

end Lawful

/-! ### Tables of the same keys -/

section Paired

variable {κ α β : Type} {R : α → β → Prop} {t : Table κ α} {u : Table κ β}

/-- Two tables have the same keys in the same order, and their values are related. -/
def Paired (R : α → β → Prop) (t : Table κ α) (u : Table κ β) : Prop :=
  List.Forall₂ (fun p q => q.1 = p.1 ∧ R p.2 q.2) t u

theorem paired_nil : Paired R ([] : Table κ α) ([] : Table κ β) := .nil

theorem Paired.concat (h : Paired R t u) {a : α} {b : β} (hab : R a b) (k : κ) :
    Paired R (t ++ [(k, a)]) (u ++ [(k, b)]) :=
  rel_append h (.cons ⟨rfl, hab⟩ .nil)

theorem Paired.isEmpty_eq (h : Paired R t u) : u.isEmpty = t.isEmpty := by
  rw [Paired] at h
  cases h <;> rfl

theorem Paired.keys_eq (h : Paired R t u) : u.keys = t.keys := by
  induction h with
  | nil => rfl
  | cons hkey _ ih => exact congrArg₂ List.cons hkey.1 ih

theorem Paired.exists_of_mem (h : Paired R t u) {p : κ × α} (hp : p ∈ t) : ∃ b, (p.1, b) ∈ u ∧ R p.2 b := by
  induction h with
  | nil => cases hp
  | @cons p' q t u hpair _ ih =>
    rcases mem_cons.mp hp with rfl | hp
    · exact ⟨q.2, by rw [← hpair.1]; exact mem_cons_self, hpair.2⟩
    · obtain ⟨b, hb, hR⟩ := ih hp
      exact ⟨b, mem_cons_of_mem q hb, hR⟩

end Paired

end Table

section Distinct

variable {α : Type} [BEq α] [LawfulBEq α]

theorem mem_addNew (xs : List α) (x y : α) : y ∈ addNew xs x ↔ y ∈ xs ∨ y = x := by
  rw [addNew]
  split
  case isTrue h =>
    have hx : x ∈ xs := by simpa using h
    exact ⟨Or.inl, fun hy => hy.elim id fun he => he ▸ hx⟩
  case isFalse => simp

theorem nodup_addNew {xs : List α} (h : xs.Nodup) (x : α) : (addNew xs x).Nodup := by
  rw [addNew]
  split
  case isTrue => exact h
  case isFalse hx => exact h.append (nodup_singleton x) (by simpa using hx)

theorem mem_foldl_addNew (xs ys : List α) (x : α) : x ∈ ys.foldl addNew xs ↔ x ∈ xs ∨ x ∈ ys := by
  induction ys generalizing xs with
  | nil => simp
  | cons y ys ih => rw [foldl_cons, ih, mem_addNew, mem_cons, or_assoc]

theorem nodup_foldl_addNew {xs : List α} (h : xs.Nodup) (ys : List α) : (ys.foldl addNew xs).Nodup := by
  induction ys generalizing xs with
  | nil => exact h
  | cons y ys ih => exact ih (nodup_addNew h y)

theorem mem_distinct (xs : List α) (x : α) : x ∈ distinct xs ↔ x ∈ xs := by
  simp [distinct, mem_foldl_addNew]

theorem nodup_distinct (xs : List α) : (distinct xs).Nodup := nodup_foldl_addNew nodup_nil xs

omit [LawfulBEq α] in
theorem distinct_concat (xs : List α) (x : α) : distinct (xs ++ [x]) = addNew (distinct xs) x := by
  rw [distinct, foldl_append]
  rfl

end Distinct

end Vetting
