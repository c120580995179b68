import Mathlib
import Vetting.Api.Node

/-!
# Fields of messages in normal form

A message in normal form has a field just if the message had it with a value that is kept.
-/

namespace Vetting.Message

open List Field Prod

variable {shape k : String} {f : Field}

theorem lookup_ordered (hf : field? shape k = some f) (fs : List (String × Doc)) :
    (ordered shape fs).lookup k = fs.lookup k := by
  have hlookup : ∀ gs : List Field, (gs.filterMap fun g => (fs.lookup g.name).map fun v => (g.name, v)).lookup k =
        if k ∈ gs.map name then fs.lookup k else none := by
    intro gs
    induction gs with
    | nil => rfl
    | cons g gs ih =>
      by_cases hg : k = g.name
      · subst hg
        cases hv : fs.lookup g.name with
        | none => simpa [hv] using ih
        | some v => simp [hv]
      · have hmem : k ∈ (g :: gs).map name ↔ k ∈ gs.map name := by
          rw [map_cons, mem_cons, or_iff_right hg]
        simp only [hmem, ← ih]
        cases hv : fs.lookup g.name with
        | none => simp [hv]
        | some v =>
          have hkey : (k == g.name) = false := by simpa using hg
          simp [hv, lookup_cons, hkey]
  have hname : f.name = k := by simpa using find?_some hf
  rw [ordered, hlookup, if_pos (mem_map.2 ⟨f, mem_of_find?_eq_some hf, hname⟩)]

variable {fs : List (String × Doc)}

theorem lookup_normalFields (hf : field? shape k = some f) (hfs : (fs.map fst).Nodup) :
    (normalFields shape fs).lookup k = (fs.lookup k).bind (normalField f) := by
  induction fs with
  | nil => rfl
  | cons p fs ih =>
    obtain ⟨j, v⟩ := p
    obtain ⟨hj, hfs⟩ := nodup_cons.1 hfs
    rw [normalFields]
    by_cases hk : j = k
    · subst hk
      have hnone : fs.lookup j = none := lookup_eq_none_iff.2 fun p hp => by
        simpa using fun h : j = p.1 => hj (mem_map.2 ⟨p, hp, h.symm⟩)
      have hrest := ih hfs
      rw [hnone, Option.bind_none] at hrest
      rw [hf]
      cases hv : normalField f v <;> simp [hv, hrest]
    · have hkey : (k == j) = false := by simpa using fun h : k = j => hk h.symm
      rw [lookup_cons, hkey]
      simp only [← ih hfs]
      split
      · rfl
      · split
        · rw [lookup_cons, hkey]
        · rfl

theorem normalItems_eq {inner : String} (hf : f.kind = .message inner) (ds : List Doc) :
    normalItems f ds = ds.map (normal inner) := by
  induction ds with
  | nil => rfl
  | cons d ds ih => rw [normalItems, hf, ih, map_cons]

theorem exists_of_mem_normalFields {p : String × Doc} (h : p ∈ normalFields shape fs) :
    ∃ v g, (p.1, v) ∈ fs ∧ field? shape p.1 = some g ∧ normalField g v = some p.2 := by
  induction fs with
  | nil => simp [normalFields] at h
  | cons q fs ih =>
    obtain ⟨j, v⟩ := q
    have hrest : p ∈ normalFields shape fs →
        ∃ v' g, (p.1, v') ∈ (j, v) :: fs ∧ field? shape p.1 = some g ∧ normalField g v' = some p.2 := by
      intro hp
      obtain ⟨v', g, hmem, hg, hv'⟩ := ih hp
      exact ⟨v', g, mem_cons_of_mem _ hmem, hg, hv'⟩
    rw [normalFields] at h
    split at h
    case h_1 => exact hrest h
    case h_2 g hg =>
      split at h
      case h_2 => exact hrest h
      case h_1 w hw =>
        rcases mem_cons.1 h with rfl | hp
        · exact ⟨v, g, mem_cons_self, hg, hw⟩
        · exact hrest hp

theorem keys_normalFields_sublist (shape : String) (fs : List (String × Doc)) :
    ((normalFields shape fs).map fst).Sublist (fs.map fst) := by
  induction fs with
  | nil => simp [normalFields]
  | cons p fs ih =>
    obtain ⟨j, v⟩ := p
    rw [normalFields]
    split
    · exact ih.cons j
    · split
      · exact ih.cons_cons j
      · exact ih.cons j

theorem normalFields_eq_self (h : ∀ p ∈ fs, ∃ g, field? shape p.1 = some g ∧ normalField g p.2 = some p.2) :
    normalFields shape fs = fs := by
  induction fs with
  | nil => rfl
  | cons p fs ih =>
    rw [forall_mem_cons] at h
    obtain ⟨⟨g, hg, hv⟩, hfs⟩ := h
    obtain ⟨j, v⟩ := p
    simp [normalFields, hg, hv, ih hfs]

theorem mem_ordered {p : String × Doc} :
    p ∈ ordered shape fs ↔ (∃ g ∈ fieldsOf shape, g.name = p.1) ∧ fs.lookup p.1 = some p.2 := by
  simp only [ordered, mem_filterMap, Option.map_eq_some_iff]
  constructor
  · rintro ⟨g, hg, v, hv, rfl⟩
    exact ⟨⟨g, hg, rfl⟩, hv⟩
  · rintro ⟨⟨g, hg, hname⟩, hv⟩
    exact ⟨g, hg, p.2, by rw [hname, hv], by rw [hname]⟩

theorem nodup_keys_ordered (shape : String) (fs : List (String × Doc)) : ((ordered shape fs).map fst).Nodup := by
  have hall : ∀ p ∈ shapes, (p.2.map name).Nodup := by decide +kernel
  have hnames : ((fieldsOf shape).map name).Nodup := by
    rw [fieldsOf]
    cases hshape : shapes.lookup shape with
    | none => simp
    | some gs =>
      obtain ⟨before, after, hshapes, -⟩ := lookup_eq_some_iff.1 hshape
      exact hall (shape, gs) (by rw [hshapes]; simp)
  refine hnames.sublist ?_
  have hkeys : (ordered shape fs).map fst =
      ((fieldsOf shape).filter fun g => (fs.lookup g.name).isSome).map name := by
    rw [ordered]
    induction fieldsOf shape with
    | nil => rfl
    | cons g gs ih =>
      cases hv : fs.lookup g.name with
      | none => simpa [hv] using ih
      | some v => simpa [hv] using ih
  rw [hkeys]
  exact filter_sublist.map _

theorem ordered_ordered (shape : String) (fs : List (String × Doc)) :
    ordered shape (ordered shape fs) = ordered shape fs := by
  have hlookup : ∀ g ∈ fieldsOf shape, (ordered shape fs).lookup g.name = fs.lookup g.name := by
    intro g hg
    cases hfind : field? shape g.name with
    | none =>
      have hnone := find?_eq_none.1 hfind g hg
      simp at hnone
    | some g' => exact lookup_ordered hfind fs
  rw [ordered]
  conv_rhs => rw [ordered]
  exact filterMap_congr fun g hg => by rw [hlookup g hg]

theorem field?_normal (hf : field? shape k = some f) (hfs : (fs.map fst).Nodup) :
    (normal shape (.obj fs)).field? k = (fs.lookup k).bind (normalField f) := by
  rw [normal, Doc.field?, lookup_ordered hf, lookup_normalFields hf hfs]

theorem normalField_alternative {e : String} (hkind : f.kind = .choice e)
    (halternative : f.alternative = true) (s : String) :
    normalField f (.str s) = some (.str s) := by
  simp [normalField, normalPlain, normalAtom, choiceDoc, hkind, halternative]

theorem textOf_normal (hf : field? shape k = some f) (hfs : (fs.map fst).Nodup) (hkind : f.kind = .text)
    {s : String} (hs : fs.lookup k = some (.str s)) : Api.textOf (normal shape (.obj fs)) k = s := by
  have hvalue : normalField f (.str s) = none ∧ s = "" ∨ normalField f (.str s) = some (.str s) := by
    by_cases hempty : s = ""
    · cases f.alternative <;> simp [normalField, normalPlain, normalAtom, isDefault, hkind, hempty]
    · simp [normalField, normalPlain, normalAtom, isDefault, hkind, hempty]
  rw [Api.textOf, field?_normal hf hfs, hs, Option.bind_some]
  rcases hvalue with ⟨hvalue, rfl⟩ | hvalue <;> rw [hvalue] <;> rfl

end Vetting.Message
