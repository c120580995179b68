import Vetting.Proofs.Host
import Vetting.Workflow.Plan

/-!
# Which dependencies a plan waits for

A package that is met as a dependency before its own turn has a task by then, and its own dependencies are
never looked at. So what matters is which packages are *taken up*.
-/

namespace Vetting

open List

variable {p : Plan} {g : Graph} {a : String} {d : Draft}

/-! ## Graphs of packages -/

theorem Literal.same_text_iff (x : Literal) (s : String) : Literal.same x (.text s) = true ↔ x = .text s := by
  cases x <;> simp [Literal.same, Literal.number?]

namespace Graph

/-- A graph of packages: each node is there once and is a name, and edges join nodes. -/
structure OfPackages (g : Graph) : Prop where
  named : ∀ n ∈ g.names, ∃ s, n = .text s ∧ s ≠ ""
  nodup : g.names.Nodup
  ends : ∀ e ∈ g.edges, e.1 ∈ g.names ∧ e.2 ∈ g.names

/-- A graph of names, which may be empty: each node is there once, and edges join nodes. -/
structure OfNames (g : Graph) : Prop where
  named : ∀ n ∈ g.names, ∃ s, n = .text s
  nodup : g.names.Nodup
  ends : ∀ e ∈ g.edges, e.1 ∈ g.names ∧ e.2 ∈ g.names

def packages (g : Graph) : List String := g.names.map Literal.shown

/-- Whether a package stands before another one in the order of the nodes. -/
def Precedes (g : Graph) (a b : String) : Prop := g.packages.idxOf a < g.packages.idxOf b

def dependencies (g : Graph) (a : String) : List String := (g.successors (.text a)).map Literal.shown

namespace OfNames

variable {g : Graph} (hg : g.OfNames)

include hg

theorem text_mem_names (ha : a ∈ g.packages) : Literal.text a ∈ g.names := by
  obtain ⟨n, hn, rfl⟩ := mem_map.1 ha
  obtain ⟨s, rfl⟩ := hg.named n hn
  exact hn

theorem hasNode (ha : a ∈ g.packages) : g.hasNode (.text a) = true := by
  obtain ⟨p, hp, he⟩ := mem_map.1 (hg.text_mem_names ha)
  exact any_eq_true.2 ⟨p, hp, (Literal.same_text_iff _ _).2 he⟩

theorem nodup_packages : g.packages.Nodup := by
  refine hg.nodup.map_on fun x hx y hy hxy => ?_
  obtain ⟨s, rfl⟩ := hg.named x hx
  obtain ⟨t, rfl⟩ := hg.named y hy
  exact congrArg Literal.text hxy

theorem precedes_iff {before after : List String} {a b : String}
    (hsplit : g.packages = before ++ a :: after) (hne : b ≠ a) :
    g.Precedes a b ↔ b ∉ before := by
  have hnd := hsplit ▸ hg.nodup_packages
  have ha : a ∉ before := fun h => (nodup_append.1 hnd).2.2 a h a mem_cons_self rfl
  have hidx : g.packages.idxOf a = before.length := by
    rw [hsplit, idxOf_append_of_notMem ha, idxOf_cons_self, Nat.add_zero]
  rw [Precedes, hidx, hsplit]
  by_cases hmem : b ∈ before
  · have hlt := idxOf_lt_length_iff.2 hmem
    rw [idxOf_append_of_mem hmem]
    exact ⟨fun h => absurd h hlt.asymm, fun h => absurd hmem h⟩
  · rw [idxOf_append_of_notMem hmem, idxOf_cons_ne _ hne.symm]
    exact ⟨fun _ => hmem, fun _ => by omega⟩

theorem mem_packages_of_edge {a b : String} (h : (.text a, .text b) ∈ g.edges) : a ∈ g.packages ∧ b ∈ g.packages :=
  ⟨mem_map.2 ⟨_, (hg.ends _ h).1, rfl⟩, mem_map.2 ⟨_, (hg.ends _ h).2, rfl⟩⟩

theorem mem_dependencies {a b : String} : b ∈ g.dependencies a ↔ (.text a, .text b) ∈ g.edges := by
  simp only [dependencies, successors, map_map, mem_map, mem_filter, Literal.same_text_iff, Function.comp_apply]
  constructor
  · rintro ⟨⟨x, y⟩, ⟨he, hx⟩, rfl⟩
    obtain ⟨s, hy⟩ := hg.named y (hg.ends _ he).2
    obtain rfl : x = .text a := hx
    subst hy
    exact he
  · intro h
    exact ⟨_, ⟨h, rfl⟩, rfl⟩

theorem successors_eq (a : String) : g.successors (.text a) = (g.dependencies a).map Literal.text := by
  rw [dependencies, map_map]
  refine ((map_id _).symm.trans (map_congr_left fun y hy => ?_))
  obtain ⟨⟨x, y⟩, he, rfl⟩ := mem_map.1 hy
  obtain ⟨s, hs⟩ := hg.named y (hg.ends _ (mem_filter.1 he).1).2
  simp [hs, Literal.shown]

end OfNames

namespace OfPackages

variable {g : Graph} (hg : g.OfPackages)

include hg

theorem ofNames : g.OfNames :=
  ⟨fun n hn => (hg.named n hn).imp fun _ hs => hs.1, hg.nodup, hg.ends⟩

theorem ne_empty (ha : a ∈ g.packages) : a ≠ "" := by
  obtain ⟨s, hs, hne⟩ := hg.named _ (hg.ofNames.text_mem_names ha)
  exact Literal.text.inj hs ▸ hne

theorem mem_packages_of_edge {a b : String} (h : (.text a, .text b) ∈ g.edges) :
    a ∈ g.packages ∧ b ∈ g.packages := hg.ofNames.mem_packages_of_edge h

end OfPackages

end Graph

namespace Workflow.Plan

/-! ## The task of a package -/

/-- What a package is known by: its name, without a range of versions. -/
def key (p : Plan) (a : String) : String :=
  if p.cutsRanges then (Text.splitOn a ">=").headD a else a

/-- The name of the task of what is known by a key. -/
def taskId (p : Plan) (k : String) : String :=
  if p.cleansNames then String.ofList (Package.dotInvalid k.toList) else k

/-- The task that is made for a key when it is first met. -/
def newTask (p : Plan) (k : String) : Task :=
  match p.task { key := k, name := .text k } with
  | .ok t => t
  | .error _ => default

theorem task_eq (p : Plan) (k : String) : p.task { key := k, name := .text k } = .ok (p.newTask k) := by
  cases hc : p.cleansNames <;> simp [newTask, task, taskName, hc]

@[simp] theorem newTask_upstream (p : Plan) (k : String) : (p.newTask k).upstream = none := by
  cases hc : p.cleansNames <;> simp [newTask, task, taskName, hc]

section Unversioned

variable {p : Plan} (hp : p.versions = false)

include hp

theorem newTask_id (k : String) : (p.newTask k).id = p.taskId k := by
  cases hc : p.cleansNames <;> simp [newTask, task, taskName, taskId, hp, hc, Literal.shown]

theorem named_eq (a : String) : p.named a = .ok { key := p.key a, name := .text (p.key a) } := by
  cases hc : p.cutsRanges <;> simp [named, cutRange, key, hp, hc, Literal.shown]

theorem skips_eq (ha : p.skipsUnnamed = true → a ≠ "") :
    p.skips { key := p.key a, name := .text (p.key a) } = .ok false := by
  have hv : p.checksVersions = false := by simp [checksVersions, hp]
  have hs : p.skipsUnnamed = true → p.key a = a := by
    intro h
    have hr : p.registry = .npmjs := by simp [skipsUnnamed] at h; exact h.1.1
    simp [key, cutsRanges, hr]
  cases hu : p.skipsUnnamed with
  | false => simp [skips, hv, hu]
  | true => simpa [skips, hv, hu, hs hu] using ha hu

end Unversioned

/-! ## One visit -/

/-- A draft with new tasks for those of some keys that had none. -/
def Extends (p : Plan) (d : Draft) (keys : List String) (d' : Draft) : Prop :=
  ∀ j, d'.get? j = (d.get? j).or (if j ∈ keys then some (p.newTask j) else none)

theorem Extends.refl (p : Plan) (d : Draft) : p.Extends d [] d := fun j => by simp

variable {keys visited : List String} {k : String}

theorem Extends.ensure {d₀ d : Draft} (h : p.Extends d₀ keys d) (k : String) :
    ∃ d', p.ensure d { key := k, name := .text k } = .ok d' ∧ p.Extends d₀ (addNew keys k) d' := by
  rw [Plan.ensure, Table.has_eq_isSome_get?]
  have hk := h k
  cases hd : d.get? k with
  | some t =>
    refine ⟨d, rfl, fun j => ?_⟩
    rw [h j]
    by_cases hj : j = k
    · subst hj
      -- the task was there at first, or came with the keys so far
      cases h₀ : d₀.get? j with
      | some u => simp
      | none =>
        have hmem : j ∈ keys := by
          by_contra hmem
          simp [hd, h₀, hmem] at hk
        simp [mem_addNew, hmem]
    · simp [mem_addNew, hj]
  | none =>
    refine ⟨d ++ [(k, p.newTask k)], by simp [task_eq, Except.map], fun j => ?_⟩
    rw [Table.get?_append, Table.get?_cons, Table.get?_nil]
    by_cases hj : j = k
    · subst hj
      have h₀ : d₀.get? j = none := (Option.or_eq_none_iff.1 (hk ▸ hd)).1
      simp [hd, h₀, mem_addNew]
    · simp [h j, mem_addNew, hj, Ne.symm hj]

theorem Extends.isSome {d d' : Draft} (h : p.Extends d keys d') (hk : k ∈ keys) : (d'.get? k).isSome := by
  simp [h k, hk]

theorem Extends.id_eq (hp : p.versions = false) {d d' : Draft} (h : p.Extends d keys d')
    (hid : ∀ k t, d.get? k = some t → t.id = p.taskId k) (k : String) (t : Task) (ht : d'.get? k = some t) :
    t.id = p.taskId k := by
  rw [h k, Option.or_eq_some_iff] at ht
  rcases ht with ht | ⟨-, ht⟩
  · exact hid k t ht
  · obtain rfl := Option.some.inj (Option.ite_none_right_eq_some.1 ht).2
    exact newTask_id hp k

/-- Going through dependencies makes tasks for all of them but the package itself. -/
theorem addDependencies_spec (hp : p.versions = false) (k : String) {d₀ : Draft} {bs : List String}
    (hbs : ∀ b ∈ bs, p.skipsUnnamed = true → b ≠ "") (h : p.Extends d₀ keys d) (hnodup : keys.Nodup) :
    ∃ d' keys', p.addDependencies k d keys (bs.map .text) = (d', keys', none) ∧ p.Extends d₀ keys' d' ∧ keys'.Nodup ∧
      ∀ j, j ∈ keys' ↔ j ∈ keys ∨ ∃ b ∈ bs, p.key b = j ∧ j ≠ k := by
  induction bs generalizing d keys with
  | nil => exact ⟨d, keys, rfl, h, hnodup, by simp⟩
  | cons b bs ih =>
    have hb := hbs b mem_cons_self
    have hrest := fun c hc => hbs c (mem_cons_of_mem b hc)
    by_cases hk : p.key b = k
    · obtain ⟨d', keys', heq, hext, hnodup', hmem⟩ := ih hrest h hnodup
      subst hk
      refine ⟨d', keys', ?_, hext, hnodup', fun j => ?_⟩
      · simpa [addDependencies, dependencyText, named_eq hp, bind, Except.bind, skips_eq hp hb,
          pure, Except.pure] using heq
      · have hnot : ¬ (p.key b = j ∧ j ≠ p.key b) := fun hj => hj.2 hj.1.symm
        simp only [hmem j, exists_mem_cons_iff, hnot, false_or]
    · obtain ⟨e, hens, hext⟩ := h.ensure (p.key b)
      obtain ⟨d', keys', heq, hext', hnodup', hmem⟩ := ih hrest hext (nodup_addNew hnodup (p.key b))
      refine ⟨d', keys', ?_, hext', hnodup', fun j => ?_⟩
      · simpa [addDependencies, dependencyText, named_eq hp, bind, Except.bind, skips_eq hp hb, hk,
          hens, pure, Except.pure, Functor.map, Except.map] using heq
      · have hhead : j = p.key b ↔ p.key b = j ∧ j ≠ k :=
          ⟨fun hj => ⟨hj.symm, hj ▸ hk⟩, fun hj => hj.1.symm⟩
        rw [hmem j, mem_addNew, exists_mem_cons_iff, hhead, or_assoc]

theorem idsOf_eq (hid : ∀ k t, d.get? k = some t → t.id = p.taskId k)
    (hkeys : ∀ k ∈ keys, (d.get? k).isSome) : idsOf d keys = keys.map p.taskId := by
  rw [idsOf, ← filterMap_eq_map]
  refine filterMap_congr fun k hk => ?_
  obtain ⟨t, ht⟩ := Option.isSome_iff_exists.1 (hkeys k hk)
  rw [ht, Option.map_some, hid k t ht, Function.comp_apply]

section Visit

variable {p : Plan} (hp : p.versions = false) {g : Graph} (hg : g.OfNames)
  (hunnamed : p.skipsUnnamed = true → "" ∉ g.packages) {a : String} (ha : a ∈ g.packages) {d : Draft}

include hp hg hunnamed ha

theorem visit_of_isSome (h : (d.get? (p.key a)).isSome) : p.visit g d a = (d, none) := by
  have hskips := skips_eq hp fun hs ha' => hunnamed hs (ha' ▸ ha)
  simp [visit, pending, named_eq hp, bind, Except.bind, hg.hasNode ha, hskips,
    Table.has_eq_isSome_get?, h, pure, Except.pure]

theorem visit_of_none (hid : ∀ k t, d.get? k = some t → t.id = p.taskId k) (h : d.get? (p.key a) = none) :
    ∃ (d' : Draft) (keys : List String), p.visit g d a = (d', none) ∧
      d'.get? (p.key a) = some { p.newTask (p.key a) with upstream := some (keys.map p.taskId) } ∧
      keys.Nodup ∧ (∀ j, j ∈ keys ↔ ∃ b ∈ g.dependencies a, p.key b = j ∧ j ≠ p.key a) ∧
      ∀ j, j ≠ p.key a → d'.get? j = (d.get? j).or
        (if ∃ b ∈ g.dependencies a, p.key b = j then some (p.newTask j) else none) := by
  have hskips := skips_eq hp fun hs ha' => hunnamed hs (ha' ▸ ha)
  obtain ⟨d₁, hens, hext₁⟩ := (Extends.refl p d).ensure (p.key a)
  have hbs : ∀ b ∈ g.dependencies a, p.skipsUnnamed = true → b ≠ "" := fun b hb hs hb' =>
    hunnamed hs (hb' ▸ (hg.mem_packages_of_edge (hg.mem_dependencies.1 hb)).2)
  obtain ⟨d₂, keys, hadd, hext₂, hnodup, hkeys⟩ :=
    addDependencies_spec hp (p.key a) hbs (Extends.refl p d₁) nodup_nil
  simp only [not_mem_nil, false_or] at hkeys
  have hids : idsOf d₂ keys = keys.map p.taskId :=
    idsOf_eq (hext₂.id_eq hp (hext₁.id_eq hp hid)) fun k hk => hext₂.isSome hk
  refine ⟨d₂.modify (p.key a) default fun t => { t with upstream := some (idsOf d₂ keys) },
    keys, ?_, ?_, hnodup, hkeys, fun j hj => ?_⟩
  · simp [visit, pending, named_eq hp, bind, Except.bind, hg.hasNode ha, hskips,
      Table.has_eq_isSome_get?, h, pure, Except.pure, hens, hg.successors_eq, hadd]
  · have hself : d₂.get? (p.key a) = some (p.newTask (p.key a)) := by
      simp [hext₂ (p.key a), hext₁ (p.key a), h, mem_addNew]
    rw [Table.get?_modify, if_pos rfl, hself, Option.getD_some, hids]
  · have hmem : j ∈ keys ↔ ∃ b ∈ g.dependencies a, p.key b = j := by simp [hkeys j, hj]
    have h₁ : d₁.get? j = d.get? j := by simp [hext₁ j, mem_addNew, hj]
    rw [Table.get?_modify, if_neg (Ne.symm hj), hext₂ j, h₁]
    simp only [hmem]

end Visit

/-! ## A whole run -/

/-- A key is met if it is that of a package visited, latest first, or of a dependency of one that was not met
before its visit. -/
def Met (p : Plan) (g : Graph) : List String → String → Prop
  | [], _ => False
  | a :: visited, k =>
    p.Met g visited k ∨ p.key a = k ∨ (¬ p.Met g visited (p.key a) ∧ ∃ b ∈ g.dependencies a, p.key b = k)

/-- A package is taken up in some visits, latest first, if its key was not met before. -/
def TakenUp (p : Plan) (g : Graph) : List String → String → Prop
  | [], _ => False
  | a :: visited, b => (a = b ∧ ¬ p.Met g visited (p.key a)) ∨ p.TakenUp g visited b

instance decidableMet (p : Plan) (g : Graph) : (visited : List String) → (k : String) → Decidable (p.Met g visited k)
  | [], _ => inferInstanceAs (Decidable False)
  | a :: visited, k =>
    have := decidableMet p g visited k
    have := decidableMet p g visited (p.key a)
    inferInstanceAs (Decidable (_ ∨ _ ∨ (¬ _ ∧ ∃ b ∈ g.dependencies a, p.key b = k)))

instance decidableTakenUp (p : Plan) (g : Graph) :
    (visited : List String) → (a : String) → Decidable (p.TakenUp g visited a)
  | [], _ => inferInstanceAs (Decidable False)
  | a :: visited, b =>
    have := decidableTakenUp p g visited b
    inferInstanceAs (Decidable ((a = b ∧ ¬ p.Met g visited (p.key a)) ∨ _))

theorem TakenUp.met (h : p.TakenUp g visited a) : p.Met g visited (p.key a) := by
  induction visited with
  | nil => exact h
  | cons c visited ih =>
    rcases h with ⟨rfl, -⟩ | h
    · exact .inr (.inl rfl)
    · exact .inl (ih h)

theorem TakenUp.unique {a b : String} (ha : p.TakenUp g visited a)
    (hb : p.TakenUp g visited b) (hk : p.key a = p.key b) : a = b := by
  induction visited with
  | nil => exact ha.elim
  | cons c visited ih =>
    rcases ha with ⟨rfl, hc⟩ | ha <;> rcases hb with ⟨rfl, hc'⟩ | hb
    · rfl
    · exact absurd (hk ▸ hb.met) hc
    · exact absurd (hk ▸ ha.met) hc'
    · exact ih ha hb

/-- What the task of a key waits for: the dependencies of the package that was taken up, if one was. -/
def Waits (p : Plan) (g : Graph) (visited : List String) (k : String) : Option (List String) → Prop
  | none => ∀ a, p.TakenUp g visited a → p.key a ≠ k
  | some ids => ∃ (a : String) (keys : List String), p.TakenUp g visited a ∧ p.key a = k ∧
      ids = keys.map p.taskId ∧ keys.Nodup ∧ ∀ j, j ∈ keys ↔ ∃ b ∈ g.dependencies a, p.key b = j ∧ j ≠ k

theorem waits_congr {visited visited' : List String}
    (h : ∀ a, p.key a = k → (p.TakenUp g visited a ↔ p.TakenUp g visited' a)) {upstream : Option (List String)}
    (hw : p.Waits g visited k upstream) : p.Waits g visited' k upstream := by
  cases upstream with
  | none => exact fun a ha hk => hw a ((h a hk).2 ha) hk
  | some ids =>
    obtain ⟨a, keys, ha, hk, hids⟩ := hw
    exact ⟨a, keys, (h a hk).1 ha, hk, hids⟩

/-- A draft after some visits, listed latest first. -/
structure Drafted (p : Plan) (g : Graph) (visited : List String) (d : Draft) : Prop where
  isSome_iff : ∀ k, (d.get? k).isSome ↔ p.Met g visited k
  id_eq : ∀ k t, d.get? k = some t → t.id = p.taskId k
  waits : ∀ k t, d.get? k = some t → p.Waits g visited k t.upstream

theorem Drafted.nil (p : Plan) (g : Graph) : p.Drafted g [] [] :=
  ⟨fun k => by simp [Met], fun k t ht => by simp at ht, fun k t ht => by simp at ht⟩

section Run

variable {p : Plan} (hp : p.versions = false) {g : Graph} (hg : g.OfNames)
  (hunnamed : p.skipsUnnamed = true → "" ∉ g.packages)

include hp hg hunnamed

theorem Drafted.visit_met (h : p.Drafted g visited d) (ha : a ∈ g.packages)
    (hm : p.Met g visited (p.key a)) : ∃ d', p.visit g d a = (d', none) ∧ p.Drafted g (a :: visited) d' := by
  have hmet : ∀ k, p.Met g (a :: visited) k ↔ p.Met g visited k := by
    intro k
    simp only [Met, hm, not_true_eq_false, false_and, or_false]
    exact ⟨fun hk => hk.elim (fun hk => hk) fun hk => hk ▸ hm, .inl⟩
  have htaken : ∀ b, p.TakenUp g visited b ↔ p.TakenUp g (a :: visited) b := by
    simp [TakenUp, hm]
  refine ⟨d, visit_of_isSome hp hg hunnamed ha ((h.isSome_iff _).2 hm), fun k => ?_, h.id_eq, ?_⟩
  · rw [hmet k, h.isSome_iff k]
  · exact fun k t ht => waits_congr (fun b _ => htaken b) (h.waits k t ht)

theorem Drafted.visit_new (h : p.Drafted g visited d) (ha : a ∈ g.packages)
    (hm : ¬ p.Met g visited (p.key a)) : ∃ d', p.visit g d a = (d', none) ∧ p.Drafted g (a :: visited) d' := by
  have hnone : d.get? (p.key a) = none := by
    simpa using (h.isSome_iff (p.key a)).not.2 hm
  obtain ⟨d', keys, hvisit, hself, hnodup, hkeys, hother⟩ := visit_of_none hp hg hunnamed ha h.id_eq hnone
  -- the task of any other key is an old one, or new and without an order
  have hcases : ∀ k t, k ≠ p.key a → d'.get? k = some t →
      d.get? k = some t ∨ (¬ p.Met g visited k ∧ t = p.newTask k) := by
    intro k t hk ht
    rw [hother k hk, Option.or_eq_some_iff] at ht
    refine ht.imp_right fun ⟨hd, ht⟩ => ⟨fun hmet => ?_, ?_⟩
    · simpa [hd] using (h.isSome_iff k).2 hmet
    · exact (Option.some.inj (Option.ite_none_right_eq_some.1 ht).2).symm
  refine ⟨d', hvisit, fun k => ?_, fun k t ht => ?_, fun k t ht => ?_⟩ <;> by_cases hk : k = p.key a
  · subst hk
    simp [hself, Met]
  · rw [hother k hk, Option.isSome_or, Bool.or_eq_true, h.isSome_iff k]
    simp [Met, hm, Ne.symm hk]
  · subst hk
    obtain rfl := Option.some.inj (hself.symm.trans ht)
    exact newTask_id hp _
  · rcases hcases k t hk ht with hd | ⟨-, rfl⟩
    · exact h.id_eq k t hd
    · exact newTask_id hp k
  · subst hk
    obtain rfl := Option.some.inj (hself.symm.trans ht)
    exact ⟨a, keys, .inl ⟨rfl, hm⟩, rfl, rfl, hnodup, hkeys⟩
  · have htaken : ∀ b, p.key b = k → (p.TakenUp g visited b ↔ p.TakenUp g (a :: visited) b) := by
      intro b hb
      have hab : a ≠ b := fun hab => hk (hab ▸ hb.symm)
      simp [TakenUp, hab]
    refine waits_congr htaken ?_
    rcases hcases k t hk ht with hd | ⟨hmet, rfl⟩
    · exact h.waits k t hd
    · rw [newTask_upstream]
      exact fun b hb hkb => hmet (hkb ▸ hb.met)

theorem Drafted.visitAll (h : p.Drafted g visited d) {nodes : List String}
    (hn : ∀ a ∈ nodes, a ∈ g.packages) :
    ∃ d', p.visitAll g d nodes = (d', none) ∧ p.Drafted g (nodes.reverse ++ visited) d' := by
  induction nodes generalizing visited d with
  | nil => exact ⟨d, rfl, h⟩
  | cons a nodes ih =>
    have ha := hn a mem_cons_self
    have hstep : ∃ d', p.visit g d a = (d', none) ∧ p.Drafted g (a :: visited) d' := by
      by_cases hm : p.Met g visited (p.key a)
      · exact h.visit_met hp hg hunnamed ha hm
      · exact h.visit_new hp hg hunnamed ha hm
    obtain ⟨d₁, hvisit, h₁⟩ := hstep
    obtain ⟨d₂, hall, h₂⟩ := ih h₁ fun b hb => hn b (mem_cons_of_mem a hb)
    refine ⟨d₂, ?_, ?_⟩
    · rw [Plan.visitAll, hvisit]
      exact hall
    · simpa using h₂

theorem exists_drafted_of_names : ∃ d, p.draft g = (d, none) ∧ p.Drafted g g.packages.reverse d := by
  obtain ⟨d, hd, h⟩ := (Drafted.nil p g).visitAll hp hg hunnamed fun a ha => ha
  exact ⟨d, hd, by simpa using h⟩

end Run

theorem exists_drafted (hp : p.versions = false) (hg : g.OfPackages) :
    ∃ d, p.draft g = (d, none) ∧ p.Drafted g g.packages.reverse d :=
  exists_drafted_of_names hp hg.ofNames fun _ hempty => hg.ne_empty hempty rfl

/-! ## Orders that are kept -/

/-- Whether the task of a package waits for that of another one. -/
def RunsAfter (p : Plan) (d : Draft) (a b : String) : Prop :=
  ∃ t u ids, d.get? (p.key a) = some t ∧ d.get? (p.key b) = some u ∧ t.upstream = some ids ∧ u.id ∈ ids

theorem met_iff : p.Met g visited k ↔ (∃ a ∈ visited, p.key a = k) ∨
      ∃ a, p.TakenUp g visited a ∧ ∃ b ∈ g.dependencies a, p.key b = k := by
  induction visited with
  | nil => simp [Met, TakenUp]
  | cons c visited ih =>
    simp only [Met, ih, TakenUp, exists_mem_cons_iff]
    constructor
    · rintro ((h | ⟨a, ha, hb⟩) | h | ⟨hc, hb⟩)
      · exact .inl (.inr h)
      · exact .inr ⟨a, .inr ha, hb⟩
      · exact .inl (.inl h)
      · exact .inr ⟨c, .inl ⟨rfl, hc⟩, hb⟩
    · rintro ((h | h) | ⟨a, ⟨rfl, hc⟩ | ha, hb⟩)
      · exact .inr (.inl h)
      · exact .inl (.inl h)
      · exact .inr (.inr ⟨hc, hb⟩)
      · exact .inl (.inr ⟨a, ha, hb⟩)

theorem TakenUp.mem (h : p.TakenUp g visited a) : a ∈ visited := by
  induction visited with
  | nil => exact h.elim
  | cons c visited ih =>
    rcases h with ⟨rfl, -⟩ | h
    · exact mem_cons_self
    · exact mem_cons_of_mem c (ih h)

theorem takenUp_append {later visited : List String}
    (ha : a ∉ later) : p.TakenUp g (later ++ visited) a ↔ p.TakenUp g visited a := by
  induction later with
  | nil => rfl
  | cons c later ih =>
    rw [mem_cons, not_or] at ha
    simp only [cons_append, TakenUp, ih ha.2, Ne.symm ha.1, false_and, false_or]

theorem takenUp_reverse_iff {before after : List String}
    (hnd : (before ++ a :: after).Nodup) :
    p.TakenUp g (before ++ a :: after).reverse a ↔ ¬ p.Met g before.reverse (p.key a) := by
  have hafter : a ∉ after.reverse := by
    simpa using (nodup_cons.1 hnd.of_append_right).1
  have hbefore : a ∉ before.reverse := by
    simpa using fun h => (nodup_append.1 hnd).2.2 a h a mem_cons_self rfl
  have heq : (before ++ a :: after).reverse = after.reverse ++ a :: before.reverse := by simp
  rw [heq, takenUp_append hafter]
  simp only [TakenUp, true_and]
  exact or_iff_left fun h => hbefore h.mem

theorem Drafted.runsAfter_iff (h : p.Drafted g visited d) {a b : String}
    (hb : b ∈ visited) :
    p.RunsAfter d a b ↔ ∃ q, p.TakenUp g visited q ∧ p.key q = p.key a ∧
      ∃ e ∈ g.dependencies q, p.key e ≠ p.key a ∧ p.taskId (p.key e) = p.taskId (p.key b) := by
  constructor
  · rintro ⟨t, u, ids, ht, hu, hids, hmem⟩
    have hw := h.waits _ _ ht
    rw [hids] at hw
    obtain ⟨q, keys, hq, hk, rfl, -, hiff⟩ := hw
    obtain ⟨j, hj, heq⟩ := mem_map.1 hmem
    obtain ⟨e, he, rfl, hne⟩ := (hiff j).1 hj
    exact ⟨q, hq, hk, e, he, hne, heq.trans (h.id_eq _ _ hu)⟩
  · rintro ⟨q, hq, hk, e, he, hne, heq⟩
    obtain ⟨t, ht⟩ := Option.isSome_iff_exists.1 ((h.isSome_iff _).2 (hk ▸ hq.met))
    obtain ⟨u, hu⟩ := Option.isSome_iff_exists.1 ((h.isSome_iff _).2 (met_iff.2 (.inl ⟨b, hb, rfl⟩)))
    have hw := h.waits _ _ ht
    cases hids : t.upstream with
    | none =>
      rw [hids] at hw
      exact absurd hk (hw q hq)
    | some ids =>
      rw [hids] at hw
      obtain ⟨q', keys, hq', hk', rfl, -, hiff⟩ := hw
      obtain rfl := hq.unique hq' (hk.trans hk'.symm)
      refine ⟨t, u, _, ht, hu, hids, mem_map.2 ⟨p.key e, (hiff _).2 ⟨e, he, rfl, hne⟩, ?_⟩⟩
      rw [heq, h.id_eq _ _ hu]

theorem takenUp_iff (hg : g.OfNames)
    (hkey : ∀ a ∈ g.packages, ∀ b ∈ g.packages, p.key a = p.key b → a = b)
    (ha : a ∈ g.packages) :
    p.TakenUp g g.packages.reverse a ↔
      ∀ q, p.TakenUp g g.packages.reverse q → a ∈ g.dependencies q → q ≠ a → g.Precedes a q := by
  obtain ⟨before, after, hsplit⟩ := append_of_mem ha
  have hnd := hsplit ▸ hg.nodup_packages
  have hdisj := (nodup_append.1 hnd).2.2
  have hself : a ∉ before := fun h => hdisj a h a mem_cons_self rfl
  have hmet : p.TakenUp g g.packages.reverse a ↔ ¬ p.Met g before.reverse (p.key a) :=
    hsplit ▸ takenUp_reverse_iff hnd
  -- what stands before `a` is taken up by the time of its visit or never
  have hlater : ∀ q ∈ before, (p.TakenUp g g.packages.reverse q ↔ p.TakenUp g before.reverse q) := by
    intro q hq
    have hnot : q ∉ after.reverse ++ [a] := by
      simpa using ⟨fun h => hdisj q hq q (mem_cons_of_mem a h) rfl, hdisj q hq a mem_cons_self⟩
    have heq : g.packages.reverse = (after.reverse ++ [a]) ++ before.reverse := by simp [hsplit]
    rw [heq, takenUp_append hnot]
  rw [hmet, met_iff]
  constructor
  · intro hnot q hq hdep hne
    rw [hg.precedes_iff hsplit hne]
    exact fun hmem => hnot (.inr ⟨q, (hlater q hmem).1 hq, a, hdep, rfl⟩)
  · rintro h (⟨c, hc, hk⟩ | ⟨q, hq, b, hb, hk⟩)
    · have hmem := mem_reverse.1 hc
      have hca := hkey c (by simp [hsplit, hmem]) a ha hk
      exact hself (hca ▸ hmem)
    · have hmem := mem_reverse.1 hq.mem
      obtain rfl := hkey b (hg.mem_packages_of_edge (hg.mem_dependencies.1 hb)).2 a ha hk
      have hne : q ≠ b := fun hqb => hself (hqb ▸ hmem)
      exact (hg.precedes_iff hsplit hne).1 (h q ((hlater q hmem).2 hq) hb hne) hmem

/-- Where no two packages are known by one key, a package has an order if it was taken up. -/
theorem Drafted.runsAfter_iff_takenUp (hg : g.OfNames)
    (hkey : ∀ a ∈ g.packages, ∀ b ∈ g.packages, p.key a = p.key b → a = b)
    (h : p.Drafted g g.packages.reverse d) {a b : String} (hab : (.text a, .text b) ∈ g.edges)
    (hne : a ≠ b) : p.RunsAfter d a b ↔ p.TakenUp g g.packages.reverse a := by
  obtain ⟨ha, hb⟩ := hg.mem_packages_of_edge hab
  rw [h.runsAfter_iff (mem_reverse.2 hb)]
  constructor
  · rintro ⟨q, hq, hk, -⟩
    exact hkey q (mem_reverse.1 hq.mem) a ha hk ▸ hq
  · intro ht
    exact ⟨a, ht, rfl, b, hg.mem_dependencies.2 hab, fun hk => hne (hkey b hb a ha hk).symm, rfl⟩

/-- All tasks wait for their dependencies just if every package with dependencies precedes its dependents. -/
theorem Drafted.all_runsAfter_iff (hg : g.OfPackages)
    (hkey : ∀ a ∈ g.packages, ∀ b ∈ g.packages, p.key a = p.key b → a = b)
    (h : p.Drafted g g.packages.reverse d) :
    (∀ a b, (.text a, .text b) ∈ g.edges → a ≠ b → p.RunsAfter d a b) ↔
      ∀ q a b, (.text q, .text a) ∈ g.edges → (.text a, .text b) ∈ g.edges → q ≠ a → a ≠ b → g.Precedes a q := by
  replace hg := hg.ofNames
  constructor
  · intro hall q a b hqa hab hqne hne
    have hq := (h.runsAfter_iff_takenUp hg hkey hqa hqne).1 (hall q a hqa hqne)
    have ha := (h.runsAfter_iff_takenUp hg hkey hab hne).1 (hall a b hab hne)
    exact (takenUp_iff hg hkey (hg.mem_packages_of_edge hab).1).1 ha q hq (hg.mem_dependencies.2 hqa) hqne
  · intro hpre a b hab hne
    rw [h.runsAfter_iff_takenUp hg hkey hab hne, takenUp_iff hg hkey (hg.mem_packages_of_edge hab).1]
    exact fun q _ hqa hqne => hpre q a b (hg.mem_dependencies.1 hqa) hab hqne hne

theorem runOn_run (hd : p.draft g = (d, none)) {h : Host}
    (hg : h.entry? p.graphFile = some (.file (.graph g false))) :
    p.run.runOn h = (.ok (), { h with log := { h.log with workflows := h.log.workflows ++
      [{ id := p.id, defaults := defaults, schedule := .null, tasks := d.values }] } }) := by
  rw [run, Job.runOn_bind (Job.runOn_get h), Job.runOn_bind (Job.runOn_note _ _),
    Job.runOn_bind (Job.runOn_readGraph (by simpa using hg)), hd,
    Job.runOn_bind (Job.runOn_note _ _)]
  rfl

/-- A plan without versions makes a workflow with a task for every package. The task of a package waits for that
of a dependency just if the package is taken up (or another one of its key is, with a dependency whose task
has that name). So where no two packages are known by one key, all tasks wait for their dependencies if and
only if every package that depends on something precedes the packages that depend on it. -/
theorem runsAfter_iff_precedes (p : Plan) (hp : p.versions = false) (g : Graph) (hg : g.OfPackages) :
    ∃ d : Draft, (∀ h : Host, h.entry? p.graphFile = some (.file (.graph g false)) →
        p.run.runOn h = (.ok (), { h with log := { h.log with workflows := h.log.workflows ++
          [{ id := p.id, defaults := defaults, schedule := .null, tasks := d.values }] } })) ∧
      (∀ a ∈ g.packages, ∃ t, d.get? (p.key a) = some t ∧ t.id = p.taskId (p.key a)) ∧
      (∀ a b, (.text a, .text b) ∈ g.edges → a ≠ b →
        (p.RunsAfter d a b ↔ ∃ q, p.TakenUp g g.packages.reverse q ∧ p.key q = p.key a ∧
          ∃ e ∈ g.dependencies q, p.key e ≠ p.key a ∧ p.taskId (p.key e) = p.taskId (p.key b))) ∧
      ((∀ a ∈ g.packages, ∀ b ∈ g.packages, p.key a = p.key b → a = b) →
        ((∀ a b, (.text a, .text b) ∈ g.edges → a ≠ b → p.RunsAfter d a b) ↔
          ∀ q a b, (.text q, .text a) ∈ g.edges → (.text a, .text b) ∈ g.edges → q ≠ a → a ≠ b →
            g.Precedes a q)) := by
  obtain ⟨d, hd, h⟩ := exists_drafted hp hg
  refine ⟨d, fun _ => runOn_run hd, fun a ha => ?_, fun a b hab _ => ?_, h.all_runsAfter_iff hg⟩
  · have hmet : p.Met g g.packages.reverse (p.key a) :=
      met_iff.2 (.inl ⟨a, mem_reverse.2 ha, rfl⟩)
    obtain ⟨t, ht⟩ := Option.isSome_iff_exists.1 ((h.isSome_iff _).2 hmet)
    exact ⟨t, ht, h.id_eq _ t ht⟩
  · exact h.runsAfter_iff (mem_reverse.2 (hg.mem_packages_of_edge hab).2)

/-- A package that depends on one that depends on a third, in this order. -/
def chainOfThree : Graph where
  nodes := [(.text "a", []), (.text "b", []), (.text "c", [])]
  edges := [(.text "a", .text "b"), (.text "b", .text "c")]

theorem chainOfThree_ofPackages : chainOfThree.OfPackages := by
  constructor <;> simp [chainOfThree, Graph.names]

/-- The middle package of a chain is met before its turn, so it does not wait for the last one. -/
theorem runsAfter_chainOfThree : chainOfThree.OfPackages ∧ ∃ d : Draft,
      (∀ h : Host, h.entry? "./dags/npmjs.with_stats.dep_graph.pickle" = some (.file (.graph chainOfThree false)) →
        (run { registry := .npmjs, part := .whole }).runOn h =
          (.ok (), { h with log := { h.log with workflows := h.log.workflows ++
            [{ id := "npmjs_static", defaults := defaults, schedule := .null, tasks := d.values }] } })) ∧
      RunsAfter { registry := .npmjs, part := .whole } d "a" "b" ∧
      ¬ RunsAfter { registry := .npmjs, part := .whole } d "b" "c" := by
  have hg := chainOfThree_ofPackages
  obtain ⟨d, hrun, -, hiff, -⟩ :=
    runsAfter_iff_precedes { registry := .npmjs, part := .whole } rfl chainOfThree hg
  refine ⟨hg, d, hrun, ?_, ?_⟩
  · rw [hiff "a" "b" (by simp [chainOfThree]) (by decide)]
    refine ⟨"a", ?_, rfl, "b", ?_⟩
    · decide +kernel
    · decide +kernel
  · rw [hiff "b" "c" (by simp [chainOfThree]) (by decide)]
    rintro ⟨q, hq, hk, -⟩
    have hb : q = "b" := hk
    subst hb
    revert hq
    decide +kernel

end Workflow.Plan

end Vetting
