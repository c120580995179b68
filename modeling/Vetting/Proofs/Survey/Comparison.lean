import Vetting.Proofs.Fault
import Vetting.Proofs.Host
import Vetting.Survey.Comparison

/-!
# What a comparison says

Files and versions are compared by the sets of what they use, kept as lists; each list is tied to its set.
-/

namespace Vetting.Survey

open List Comparison Job Except Prod Table

variable {reports : Table String (Table String Api.Report)} {c : Comparison} {s : Shared}

/-! ## The sets that are compared -/

/-- What is compared: interfaces, and the permissions that they stand for. -/
inductive Compared where
  | permissions
  | apis

/-- The word for a kind in the keys of a summary. -/
def Compared.label : Compared → String
  | permissions => "permissions"
  | apis => "apis"

/-- The permission of the last entry of a name that has a role. -/
def standsFor (apis : List Api.Node) (name : String) : Option String :=
  apis.reverse.findSome? fun n => if n.fullName = name then permissionOf n else none

/-- The interfaces of the settings that the package of a report uses, and their permissions. -/
def used (apis : List Api.Node) (r : Api.Report) : Compared → Set String
  | .permissions =>
    {p | ∃ found ∈ r.packages.head?, ∃ n ∈ found.uses, standsFor apis n.fullName = some p}
  | .apis =>
    {name | ∃ found ∈ r.packages.head?, ∃ n ∈ found.uses, n.fullName = name ∧ (standsFor apis name).isSome}

def usedBy (apis : List Api.Node) (reports : Table String Api.Report) : List (Compared → Set String) :=
  reports.map fun r => used apis r.2

/-- A list without repetition that has the members of a set. -/
structure Lists (xs : List String) (s : Set String) : Prop where
  nodup : xs.Nodup
  mem_iff : ∀ x, x ∈ xs ↔ x ∈ s

namespace Lists

variable {xs ys : List String} {s t : Set String}

theorem union (hx : Lists xs s) (hy : Lists ys t) : Lists (union xs ys) (s ∪ t) where
  nodup := nodup_foldl_addNew hx.nodup ys
  mem_iff x := by rw [Survey.union, mem_foldl_addNew, hx.mem_iff, hy.mem_iff, Set.mem_union]

theorem common (hx : Lists xs s) (hy : Lists ys t) : Lists (common xs ys) (s ∩ t) where
  nodup := hx.nodup.filter _
  mem_iff x := by simp [Survey.common, hx.mem_iff, hy.mem_iff]

theorem apart (hx : Lists xs s) (hy : Lists ys t) : Lists (apart xs ys) (s \ t) where
  nodup := hx.nodup.filter _
  mem_iff x := by simp [Survey.apart, hx.mem_iff, hy.mem_iff]

end Lists

theorem get?_permissionsOf (apis : List Api.Node) (name : String) :
    (permissionsOf apis).get? name = standsFor apis name := by
  -- the entries are set from the first to the last, so the last of a name is met first from behind
  induction apis using List.reverseRecOn with
  | nil => rfl
  | append_singleton apis n ih =>
    rw [permissionsOf, ofPairs] at ih ⊢
    rw [standsFor] at ih ⊢
    simp only [filterMap_append, foldl_append, reverse_append, reverse_singleton, singleton_append, findSome?_cons]
    rcases hp : permissionOf n with _ | p
    · simp [hp, ih]
    · by_cases hn : n.fullName = name
      · simp [hp, hn, get?_set]
      · simp [hp, hn, get?_set, ih]

/-- What a use of an interface adds to a profile. -/
def Compared.of? (k : Compared) (watched : Table String String) (n : Api.Node) : Option String :=
  match k with
  | permissions => watched.get? n.fullName
  | apis => (watched.get? n.fullName).map fun _ => n.fullName

/-- What a profile counts, each once. -/
def Profile.keys (p : Profile) : Compared → List String
  | .permissions => p.permissions.keys
  | .apis => p.apis.keys

theorem keys_count (watched : Table String String) (p : Profile) (n : Api.Node) (k : Compared) :
    (p.count watched n).keys k = ((k.of? watched n).toList).foldl addNew (p.keys k) := by
  rcases hw : watched.get? n.fullName with _ | permission
  · cases k <;> simp [Profile.count, Compared.of?, hw]
  · cases k <;> simp [Profile.count, Compared.of?, hw, Profile.keys, Counts.add, keys_modify]

theorem keys_ofUses (watched : Table String String) (uses : List Api.Node) (k : Compared) :
    (Profile.ofUses watched uses).keys k = distinct (uses.filterMap (k.of? watched)) := by
  induction uses using List.reverseRecOn with
  | nil => cases k <;> rfl
  | append_singleton uses n ih =>
    have hstep : Profile.ofUses watched (uses ++ [n]) = (Profile.ofUses watched uses).count watched n := by
      rw [Profile.ofUses, foldl_append]
      rfl
    rw [hstep, keys_count, ih, filterMap_append]
    rcases hx : k.of? watched n with _ | x <;> simp [hx, distinct_concat]

def Profile.Shows (p : Profile) (u : Compared → Set String) : Prop := ∀ k, Lists (p.keys k) (u k)

variable {apis : List Api.Node} {p : Profile} {reports : Table String Api.Report}
  {files : Table String Profile} {client : Registry.Client}
  {packages : Table String PackageProfile} {fields : Table String Doc}

variable {r : Api.Report} {name : String} {all : Shared}

theorem shows_of_ofReport (h : Profile.ofReport (permissionsOf apis) r = .ok p) : p.Shows (used apis r) := by
  rw [Profile.ofReport, bind_eq_ok_iff] at h
  obtain ⟨found, hfound, hp⟩ := h
  obtain rfl : Profile.ofUses (permissionsOf apis) found.uses = p := ok.inj hp
  have hhead : r.packages.head? = some found := by
    rw [Api.Report.first] at hfound
    split at hfound
    · rename_i heq
      rw [heq, ← ok.inj hfound]
      rfl
    · cases hfound
  intro k
  rw [keys_ofUses]
  refine ⟨nodup_distinct _, fun x => ?_⟩
  cases k with
  | permissions => simp [mem_distinct, Compared.of?, used, hhead, get?_permissionsOf]
  | apis =>
    simp only [mem_distinct, mem_filterMap, Compared.of?, get?_permissionsOf, Option.map_eq_some_iff,
      used, hhead, Option.mem_some_iff, Set.mem_ofPred_eq, exists_eq_left', Option.isSome_iff_exists]
    constructor
    · rintro ⟨n, hn, permission, hp, rfl⟩
      exact ⟨n, hn, rfl, permission, hp⟩
    · rintro ⟨n, hn, rfl, permission, hp⟩
      exact ⟨n, hn, permission, hp, rfl⟩

theorem ofReport_isOk_iff (watched : Table String String) (r : Api.Report) :
    (∃ p, Profile.ofReport watched r = .ok p) ↔ r.packages ≠ [] := by
  rw [Profile.ofReport, Api.Report.first]
  rcases r.packages with _ | ⟨found, rest⟩
  · constructor
    · rintro ⟨_, h⟩
      cases h
    · exact fun h => absurd rfl h
  · exact ⟨fun _ => by simp, fun _ => ⟨_, rfl⟩⟩

/-! ## What is shared -/

/-- What is in all of several sets; nothing if there are none. -/
def inAll (compared : List (Compared → Set String)) (k : Compared) : Set String :=
  {x | compared ≠ [] ∧ ∀ u ∈ compared, x ∈ u k}

def inAny (compared : List (Compared → Set String)) (k : Compared) : Set String :=
  {x | ∃ u ∈ compared, x ∈ u k}

section

variable {compared : List (Compared → Set String)} {u : Compared → Set String} {k : Compared}

theorem inAll_concat : inAll (compared ++ [u]) k = if compared.isEmpty then inAll compared k ∪ u k
      else inAll compared k ∩ u k := by
  rcases compared with _ | ⟨v, compared⟩
  · ext x
    simp [inAll]
  · ext x
    constructor
    · rintro ⟨-, h⟩
      exact ⟨⟨by simp, fun w hw => h w (mem_append_left _ hw)⟩, h u (by simp)⟩
    · rintro ⟨⟨-, h⟩, hu⟩
      refine ⟨by simp, fun w hw => ?_⟩
      rcases mem_append.mp hw with hw | hw
      · exact h w hw
      · rwa [mem_singleton.mp hw]

theorem inAny_concat : inAny (compared ++ [u]) k = inAny compared k ∪ u k := by
  ext x
  simp [inAny, or_and_right, exists_or]

end

namespace Shared

def commonOf (s : Shared) : Compared → List String
  | .permissions => s.commonPermissions
  | .apis => s.commonApis

def allOf (s : Shared) : Compared → List String
  | .permissions => s.allPermissions
  | .apis => s.allApis

/-- The lists are those of the intersection and the union of several sets. -/
structure Sums (s : Shared) (compared : List (Compared → Set String)) : Prop where
  common : ∀ k, Lists (s.commonOf k) (inAll compared k)
  all : ∀ k, Lists (s.allOf k) (inAny compared k)

theorem sums_empty : Sums {} [] where
  common k := by cases k <;> exact ⟨nodup_nil, fun x => by simp [commonOf, inAll]⟩
  all k := by cases k <;> exact ⟨nodup_nil, fun x => by simp [allOf, inAny]⟩

theorem commonOf_add (s : Shared) (first : Bool) (p : Profile) (k : Compared) : (s.add first p).commonOf k =
      if first then union (s.commonOf k) (p.keys k) else common (s.commonOf k) (p.keys k) := by
  cases k <;> rfl

theorem allOf_add (s : Shared) (first : Bool) (p : Profile) (k : Compared) :
    (s.add first p).allOf k = union (s.allOf k) (p.keys k) := by
  cases k <;> rfl

theorem Sums.add {compared : List (Compared → Set String)} (h : s.Sums compared)
    {u : Compared → Set String} (hp : p.Shows u) :
    (s.add compared.isEmpty p).Sums (compared ++ [u]) where
  common k := by
    rw [commonOf_add, inAll_concat]
    split
    · exact (h.common k).union (hp k)
    · exact (h.common k).common (hp k)
  all k := by
    rw [allOf_add, inAny_concat]
    exact (h.all k).union (hp k)

end Shared

/-! ## Taking in files and versions -/

theorem usedBy_concat (apis : List Api.Node) (reports : Table String Api.Report)
    (r : String × Api.Report) : usedBy apis (reports ++ [r]) = usedBy apis reports ++ [used apis r.2] := by
  simp [usedBy]

theorem isEmpty_usedBy (apis : List Api.Node) (reports : Table String Api.Report) :
    (usedBy apis reports).isEmpty = reports.isEmpty := by
  simp [usedBy]

theorem profileFiles_spec (h : profileFiles (permissionsOf apis) reports = .ok (s, files)) :
    s.Sums (usedBy apis reports) ∧ Table.Paired (fun r p => Profile.Shows p (used apis r)) reports files := by
  have hinv := foldlM_invariant_from
    (fun before (sf : Shared × Table String Profile) => sf.1.Sums (usedBy apis before) ∧
      Table.Paired (fun r p => Profile.Shows p (used apis r)) before sf.2)
    ?_ [] ⟨Shared.sums_empty, paired_nil⟩ h
  · simpa using hinv
  · rintro before ⟨path, r⟩ ⟨s, files⟩ ⟨s', files'⟩ ⟨hsums, hpaired⟩ hstep
    obtain ⟨p, hp, hres⟩ := bind_eq_ok_iff.mp hstep
    obtain ⟨rfl, rfl⟩ := mk.inj (ok.inj hres)
    have hshows := shows_of_ofReport hp
    refine ⟨?_, hpaired.concat hshows path⟩
    rw [hpaired.isEmpty_eq, ← isEmpty_usedBy apis, usedBy_concat]
    exact hsums.add hshows

theorem profileFiles_isOk_iff (watched : Table String String) (reports : Table String Api.Report) :
    (∃ res, profileFiles watched reports = .ok res) ↔ ∀ r ∈ reports, r.2.packages ≠ [] := by
  refine foldlM_isOk_iff ?_
  rintro ⟨s, files⟩ ⟨path, r⟩
  rw [← ofReport_isOk_iff watched]
  exact bind_isOk_iff fun _ => ⟨_, rfl⟩

/-- A package is made of the reports on its versions. -/
structure PackageProfile.IsMadeOf (p : PackageProfile) (apis : List Api.Node)
    (reports : Table String Api.Report) : Prop where
  sums : p.shared.Sums (usedBy apis reports)
  versions : Table.Paired (fun r v => v.profile.Shows (used apis r)) reports p.versions

theorem PackageProfile.IsMadeOf.add {p : PackageProfile} (h : p.IsMadeOf apis reports) {version : String}
    (hnew : version ∉ reports.keys) {v : VersionProfile} (hv : v.profile.Shows (used apis r)) :
    (p.add version v).IsMadeOf apis (reports ++ [(version, r)]) where
  sums := by
    rw [PackageProfile.add, h.versions.isEmpty_eq, ← isEmpty_usedBy apis, usedBy_concat]
    exact h.sums.add hv
  versions := by
    rw [PackageProfile.add, set_of_notMem (by rwa [h.versions.keys_eq])]
    exact h.versions.concat hv version

/-- What is used by the versions of all packages. -/
def usedByAll (apis : List Api.Node) (reports : Table String (Table String Api.Report)) :
    List (Compared → Set String) :=
  reports.flatMap fun r => usedBy apis r.2

theorem usedByAll_concat (apis : List Api.Node) (reports : Table String (Table String Api.Report))
    (r : String × Table String Api.Report) :
    usedByAll apis (reports ++ [r]) = usedByAll apis reports ++ usedBy apis r.2 := by
  simp [usedByAll]

theorem isEmpty_usedByAll (apis : List Api.Node) {reports : Table String (Table String Api.Report)}
    (h : ∀ r ∈ reports, r.2 ≠ []) : (usedByAll apis reports).isEmpty = reports.isEmpty := by
  cases reports with
  | nil => rfl
  | cons r reports => simp [usedByAll, usedBy, h r mem_cons_self]

/-- Versions are taken in for the package, and for all after the packages before. -/
theorem addVersion_spec {earlier : List (Compared → Set String)}
    {versions : Table String Api.Report} (hnodup : versions.keys.Nodup) {s s' : Shared} (hs : s.Sums earlier)
    {p : PackageProfile} {h h' : Host}
    (hrun : (versions.foldlM (c.addVersion client (permissionsOf apis) name earlier.isEmpty)
      (s, {})).runOn h = (.ok (s', p), h')) :
    s'.Sums (earlier ++ usedBy apis versions) ∧ p.IsMadeOf apis versions := by
  have hinv := runOn_foldlM_invariant_from
    (fun (before : Table String Api.Report) (sp : Shared × PackageProfile) => before.keys.Nodup →
      sp.1.Sums (earlier ++ usedBy apis before) ∧ sp.2.IsMadeOf apis before)
    ?_ [] (fun _ => ⟨by simpa [usedBy] using hs, Shared.sums_empty, paired_nil⟩) hrun
  · exact hinv hnodup
  · rintro before ⟨version, r⟩ - ⟨s, p⟩ ⟨s', p'⟩ h h' hbefore hstep hnodup
    obtain ⟨hnodup, hnew⟩ : (Table.keys before).Nodup ∧ version ∉ Table.keys before := by
      have hconcat : Table.keys (before ++ [(version, r)]) = (Table.keys before).concat version := by
        simp [Table.keys]
      rw [hconcat, nodup_concat] at hnodup
      exact hnodup.symm
    obtain ⟨hsums, hmade⟩ := hbefore hnodup
    obtain ⟨profile, h₁, hprofile, hrest⟩ := exists_of_runOn_bind hstep
    obtain ⟨deps, h₂, -, hres⟩ := exists_of_runOn_bind hrest
    obtain ⟨rfl, rfl⟩ := mk.inj (ok.inj (congrArg fst hres))
    have hshows := shows_of_ofReport (congrArg fst hprofile)
    refine ⟨?_, hmade.add hnew hshows⟩
    have hfirst : (earlier.isEmpty && p.versions.isEmpty) = (earlier ++ usedBy apis before).isEmpty := by
      rw [hmade.versions.isEmpty_eq, ← isEmpty_usedBy apis]
      cases earlier <;> rfl
    rw [hfirst, usedBy_concat, ← append_assoc]
    exact hsums.add hshows

/-- No version of a package has a name twice, and no package is without a version. -/
structure AreReports (reports : Table String (Table String Api.Report)) : Prop where
  nodup : reports.keys.Nodup
  versions_nodup : ∀ r ∈ reports, r.2.keys.Nodup
  versions_ne : ∀ r ∈ reports, r.2 ≠ []

theorem profilePackages_spec {c : Comparison} {reports : Table String (Table String Api.Report)}
    (hreports : AreReports reports) {s : Shared} {h h' : Host}
    (hrun : (c.profilePackages client (permissionsOf apis) {} reports).runOn h = (.ok (s, packages), h')) :
    s.Sums (usedByAll apis reports) ∧ Table.Paired (fun r p => p.IsMadeOf apis r) reports packages := by
  have hinv := runOn_foldlM_invariant_from
    (fun before (sp : Shared × Table String PackageProfile) => (∀ r ∈ before, r.2 ≠ []) →
      sp.1.Sums (usedByAll apis before) ∧ Table.Paired (fun r p => PackageProfile.IsMadeOf p apis r) before sp.2)
    ?_ [] (fun _ => ⟨Shared.sums_empty, paired_nil⟩) hrun
  · exact hinv hreports.versions_ne
  · rintro before ⟨name, versions⟩ hmem ⟨s, packages⟩ ⟨s', packages'⟩ h h' hbefore hstep hne
    have hne := fun r hr => hne r (mem_append_left _ hr)
    obtain ⟨hsums, hpaired⟩ := hbefore hne
    obtain ⟨⟨all, p⟩, h₁, hwalk, hres⟩ := exists_of_runOn_bind hstep
    obtain ⟨rfl, rfl⟩ := mk.inj (ok.inj (congrArg fst hres))
    have hempty : packages.isEmpty = (usedByAll apis before).isEmpty := by
      rw [hpaired.isEmpty_eq, isEmpty_usedByAll apis hne]
    rw [hempty] at hwalk
    obtain ⟨hall, hmade⟩ := addVersion_spec (hreports.versions_nodup _ hmem) hsums hwalk
    exact ⟨by rwa [usedByAll_concat], hpaired.concat hmade name⟩

/-! ## The summary as a document -/

def ListsAt (fields : Table String Doc) (key : String) (s : Set String) : Prop :=
  ∃ xs : List String, fields.get? key = some (.arr (xs.map .str)) ∧ Lists xs s

/-- Fields tell what several have in common and what any of them has. -/
structure HasSums (fields : Table String Doc) (compared : List (Compared → Set String)) : Prop where
  common : ∀ k : Compared, ListsAt fields ("common_" ++ k.label) (⋂ u ∈ compared, u k)
  all : ∀ k : Compared, ListsAt fields ("all_" ++ k.label) (⋃ u ∈ compared, u k)

/-- Fields tell what one has besides what all have in common. -/
def SetsApart (fields : Table String Doc) (own : Compared → Set String)
    (compared : List (Compared → Set String)) : Prop :=
  ∀ k : Compared, ListsAt fields ("uniq_" ++ k.label) (own k \ ⋂ u ∈ compared, u k)

/-- A summary tells about files what the reports on them say. -/
structure SummarisesFiles (apis : List Api.Node) (reports : Table String Api.Report) (d : Doc) :
    Prop where
  sums : HasSums d.fieldsOf (usedBy apis reports)
  file : ∀ r ∈ reports, ∃ own, Table.get? d.fieldsOf r.1 = some (.obj own) ∧
    SetsApart own (used apis r.2) (usedBy apis reports)

/-- A summary tells about packages what the reports on their versions say. -/
structure SummarisesPackages (apis : List Api.Node)
    (reports : Table String (Table String Api.Report)) (d : Doc) : Prop where
  sums : HasSums d.fieldsOf (usedByAll apis reports)
  package : ∀ r ∈ reports, ∃ fields, Table.get? d.fieldsOf r.1 = some (.obj fields) ∧
    HasSums fields (usedBy apis r.2) ∧
    ∀ v ∈ r.2, ∃ own, Table.get? fields v.1 = some (.obj own) ∧ SetsApart own (used apis v.2) (usedByAll apis reports)

theorem inAll_eq_iInter {compared : List (Compared → Set String)} (h : compared ≠ []) (k : Compared) :
    inAll compared k = ⋂ u ∈ compared, u k := by
  ext x
  simp [inAll, h]

theorem inAny_eq_iUnion (compared : List (Compared → Set String)) (k : Compared) :
    inAny compared k = ⋃ u ∈ compared, u k := by
  ext x
  simp [inAny]

def Shared.fieldKeys : List String := (Shared.fields {}).keys

theorem mem_fieldKeys (k : Compared) :
    "common_" ++ k.label ∈ Shared.fieldKeys ∧ "all_" ++ k.label ∈ Shared.fieldKeys := by
  cases k <;> decide

theorem Shared.Sums.hasSums {compared : List (Compared → Set String)} (h : s.Sums compared)
    (hne : compared ≠ []) (hfields : ∀ key ∈ Shared.fieldKeys, fields.get? key = s.fields.get? key) :
    HasSums fields compared where
  common k := by
    refine ⟨s.commonOf k, ?_, ?_⟩
    · rw [hfields _ (mem_fieldKeys k).1]
      cases k <;> rfl
    · rw [← inAll_eq_iInter hne]
      exact h.common k
  all k := by
    refine ⟨s.allOf k, ?_, ?_⟩
    · rw [hfields _ (mem_fieldKeys k).2]
      cases k <;> rfl
    · rw [← inAny_eq_iUnion]
      exact h.all k

theorem setsApart_of_fields {compared : List (Compared → Set String)} (h : s.Sums compared)
    (hne : compared ≠ []) {u : Compared → Set String} (hp : p.Shows u)
    (hfields : ∀ key ∈ ["uniq_permissions", "uniq_apis"], fields.get? key = (p.fields s).get? key) :
    SetsApart fields u compared := by
  intro k
  refine ⟨apart (p.keys k) (s.commonOf k), ?_, ?_⟩
  · cases k with
    | permissions => exact (hfields "uniq_permissions" (by simp)).trans rfl
    | apis => exact (hfields "uniq_apis" (by simp)).trans rfl
  · rw [← inAll_eq_iInter hne]
    exact (hp k).apart (h.common k)

theorem get?_addFields {t : Table String Doc} (hnew : name ∉ t.keys) (fields : Table String Doc) (key : String) :
    (addFields t name fields).get? key =
      if name = key then some (.obj (update [] fields)) else t.get? key := by
  have hnone : t.get? name = none := by
    rw [← Option.not_isSome_iff_eq_none, isSome_get?]
    exact hnew
  rw [addFields, get?_modify, hnone]
  rfl

/-- Fields of different new names stand beside those that were there. -/
theorem get?_foldl_addFields {entries : Table String (Table String Doc)} (hnodup : entries.keys.Nodup)
    {t : Table String Doc} (hnew : ∀ key ∈ entries.keys, key ∉ t.keys) (key : String) :
    (entries.foldl (fun t e => addFields t e.1 e.2) t).get? key =
      ((entries.get? key).map fun fields => .obj (update [] fields)).or (t.get? key) := by
  induction entries generalizing t with
  | nil => rfl
  | cons e entries ih =>
    obtain ⟨he, hnodup⟩ : e.1 ∉ Table.keys entries ∧ (Table.keys entries).Nodup := by
      simpa [Table.keys] using hnodup
    have hkeys : (addFields t e.1 e.2).keys = addNew t.keys e.1 := Table.keys_modify ..
    have hrest : ∀ key ∈ Table.keys entries, key ∉ (addFields t e.1 e.2).keys := by
      intro key hkey
      rw [hkeys, mem_addNew, not_or]
      exact ⟨hnew key (mem_cons_of_mem _ hkey), fun heq => he (heq ▸ hkey)⟩
    rw [foldl_cons, ih hnodup hrest, get?_addFields (hnew e.1 mem_cons_self), get?_cons]
    split
    case isTrue hkey =>
      have hnone : get? entries key = none := by
        rw [← Option.not_isSome_iff_eq_none, isSome_get?, ← hkey]
        exact he
      rw [hnone]
      rfl
    case isFalse => rfl

theorem get?_foldl_addFields_map {α : Type} (base : Table String Doc) {t : Table String α}
    (hnodup : t.keys.Nodup) (hnew : ∀ key ∈ t.keys, key ∉ base.keys) (f : α → Table String Doc) :
    let fields := (t.map fun p => (p.1, f p.2)).foldl (fun t e => addFields t e.1 e.2) base
    (∀ key ∈ base.keys, fields.get? key = base.get? key) ∧ ∀ p ∈ t, (f p.2).keys.Nodup →
        ∃ own, fields.get? p.1 = some (.obj own) ∧ ∀ key, get? own key = (f p.2).get? key := by
  intro fields
  have hkeys : Table.keys (t.map fun p => (p.1, f p.2)) = t.keys := by
    simp [Table.keys, Function.comp_def]
  rw [← hkeys] at hnodup hnew
  have hget : ∀ key, fields.get? key = _ := get?_foldl_addFields hnodup hnew
  refine ⟨fun key hkey => ?_, fun p hp hfields => ⟨update [] (f p.2), ?_, fun key => ?_⟩⟩
  · have hnone : get? (t.map fun p => (p.1, f p.2)) key = none := by
      rw [← Option.not_isSome_iff_eq_none, isSome_get?]
      exact fun h => hnew key h hkey
    rw [hget, hnone]
    rfl
  · rw [hget, get?_of_mem hnodup (mem_map_of_mem hp)]
    rfl
  · rw [get?_update hfields]
    exact Option.or_none

theorem summarisesFiles (hsums : s.Sums (usedBy apis reports))
    (hpaired : Table.Paired (fun r p => Profile.Shows p (used apis r)) reports files) (hne : reports ≠ [])
    (hnodup : reports.keys.Nodup) (hnew : ∀ name ∈ reports.keys, name ∉ Shared.fieldKeys) :
    SummarisesFiles apis reports (summary s (files.map fun (path, p) => (path, p.fields s)) []) := by
  have hused : usedBy apis reports ≠ [] := by simpa [usedBy] using hne
  rw [← hpaired.keys_eq] at hnodup hnew
  obtain ⟨hshared, hown⟩ := get?_foldl_addFields_map s.fields hnodup hnew (fun p => p.fields s)
  refine ⟨hsums.hasSums hused hshared, fun r hr => ?_⟩
  obtain ⟨p, hp, hshows⟩ := hpaired.exists_of_mem hr
  obtain ⟨own, hget, hfields⟩ := hown _ hp (by simp [Profile.fields, Table.keys])
  exact ⟨own, hget, setsApart_of_fields hsums hused hshows fun key _ => hfields key⟩

/-- The keys of what a package says about itself. -/
def PackageProfile.fieldKeys : List String := Shared.fieldKeys ++ ["common_deps"]

theorem PackageProfile.keys_toDoc (p : PackageProfile) (all : Shared) :
    Table.keys (p.toDoc all).fieldsOf = fieldKeys ++ p.versions.keys := by
  simp [toDoc, Doc.fieldsOf, Table.keys, fieldKeys, Shared.fieldKeys, Shared.fields, Function.comp_def]

/-- What a package says about its versions together, and about each. -/
theorem PackageProfile.IsMadeOf.describes {p : PackageProfile} (h : p.IsMadeOf apis reports) (hne : reports ≠ [])
    {compared : List (Compared → Set String)} (hall : all.Sums compared) (hcompared : compared ≠ [])
    (hfields : ∀ key, fields.get? key = get? (p.toDoc all).fieldsOf key)
    (hnodup : (keys (p.toDoc all).fieldsOf).Nodup) :
    HasSums fields (usedBy apis reports) ∧ ∀ v ∈ reports, ∃ own, get? fields v.1 = some (.obj own) ∧
        SetsApart own (used apis v.2) compared := by
  have hused : usedBy apis reports ≠ [] := by simpa [usedBy] using hne
  refine ⟨h.sums.hasSums hused fun key hkey => ?_, fun v hv => ?_⟩
  · have hsome : (p.shared.fields.get? key).isSome := (isSome_get? _ _).mpr hkey
    rw [hfields, toDoc, Doc.fieldsOf, append_assoc, get?_append, Option.or_of_isSome hsome]
  · obtain ⟨version, hversion, hshows⟩ := h.versions.exists_of_mem hv
    have hmem : (v.1, Doc.obj (version.profile.fields all ++ [("deps", .obj version.deps),
        ("uniq_deps", .arr ((apart version.deps.keys p.commonDeps).map .str))])) ∈
        (p.toDoc all).fieldsOf :=
      mem_append_right _ (mem_map_of_mem hversion)
    refine ⟨_, by rw [hfields, get?_of_mem hnodup hmem], ?_⟩
    refine setsApart_of_fields hall hcompared hshows fun key hkey => ?_
    have hsome : ((version.profile.fields all).get? key).isSome := by
      rw [isSome_get?]
      exact mem_append_right ["permissions", "apis"] hkey
    rw [get?_append, Option.or_of_isSome hsome]

theorem summarisesPackages {reports : Table String (Table String Api.Report)}
    (hsums : all.Sums (usedByAll apis reports))
    (hpaired : Table.Paired (fun r p => PackageProfile.IsMadeOf p apis r) reports packages) (hne : reports ≠ [])
    (hreports : AreReports reports) (hnew : ∀ name ∈ reports.keys, name ∉ Shared.fieldKeys)
    (hversions : ∀ r ∈ reports, ∀ version ∈ r.2.keys, version ∉ PackageProfile.fieldKeys) :
    SummarisesPackages apis reports (summary all [] packages) := by
  have hused : usedByAll apis reports ≠ [] := by
    rw [← isEmpty_eq_false_iff, isEmpty_usedByAll apis hreports.versions_ne]
    simpa using hne
  have hnodup := hreports.nodup
  rw [← hpaired.keys_eq] at hnodup hnew
  obtain ⟨hshared, hown⟩ := get?_foldl_addFields_map all.fields hnodup hnew (fun p => (p.toDoc all).fieldsOf)
  rw [foldl_map] at hshared hown
  refine ⟨hsums.hasSums hused hshared, fun r hr => ?_⟩
  obtain ⟨p, hp, hmade⟩ := hpaired.exists_of_mem hr
  have hdoc : (keys (p.toDoc all).fieldsOf).Nodup := by
    rw [PackageProfile.keys_toDoc, hmade.versions.keys_eq]
    exact List.Nodup.append (by decide) (hreports.versions_nodup r hr)
      fun key hkey hversion => hversions r hr key hversion hkey
  obtain ⟨fields, hget, hfields⟩ := hown _ hp hdoc
  exact ⟨fields, hget, hmade.describes (hreports.versions_ne r hr) hsums hused hfields hdoc⟩

namespace Comparison

variable {h h' : Host} {d : Doc}

theorem keys_of_fileReports (hrun : c.fileReports.runOn h = (.ok reports, h')) :
    reports.keys = distinct c.infiles := by
  refine runOn_foldlM_invariant_from
    (fun before (t : Table String Api.Report) => t.keys = distinct before) ?_ [] rfl hrun
  intro before infile _ t t' h h' hkeys hstep
  obtain ⟨_, _, _, hstep⟩ := exists_of_runOn_bind hstep
  obtain ⟨_, _, _, hstep⟩ := exists_of_runOn_bind hstep
  obtain ⟨r, _, _, hres⟩ := exists_of_runOn_bind hstep
  obtain rfl : t.set infile r = t' := ok.inj (congrArg fst hres)
  rw [keys_set, hkeys, distinct_concat]

theorem areReports_nil : AreReports [] := ⟨nodup_nil, by simp, by simp⟩

theorem areReports_modify {t : Table String (Table String Api.Report)} (ht : AreReports t)
    (name version : String) (r : Api.Report) :
    AreReports (t.modify name [] fun versions => versions.set version r) := by
  have hvalue : ∀ p ∈ t.modify name [] fun versions => versions.set version r,
      p ∈ t ∨ ∃ versions : Table String Api.Report, versions.keys.Nodup ∧ p.2 = versions.set version r := by
    intro p hp
    rcases mem_modify hp with hp | rfl
    · exact .inl hp
    · refine .inr ⟨_, ?_, rfl⟩
      rcases hget : t.get? name with _ | versions
      · exact nodup_nil
      · exact ht.versions_nodup _ (mem_of_get? hget)
  refine ⟨?_, fun p hp => ?_, fun p hp => ?_⟩
  · rw [keys_modify]
    exact nodup_addNew ht.nodup name
  · rcases hvalue p hp with hp | ⟨versions, hnodup, heq⟩
    · exact ht.versions_nodup p hp
    · rw [heq, keys_set]
      exact nodup_addNew hnodup version
  · rcases hvalue p hp with hp | ⟨versions, -, heq⟩
    · exact ht.versions_ne p hp
    · rw [heq]
      cases versions with
      | nil => simp [Table.set]
      | cons q versions =>
        rw [Table.set]
        split <;> simp

theorem areReports_of_packageReports {c : Comparison} {reports : Table String (Table String Api.Report)}
    (hrun : (c.packageReports client).runOn h = (.ok reports, h')) :
    AreReports reports ∧ ∀ name ∈ reports.keys, name ∈ c.names := by
  refine runOn_foldlM_invariant_from (fun before (t : Table String (Table String Api.Report)) =>
      AreReports t ∧ ∀ name ∈ t.keys, name ∈ before)
    ?_ [] ⟨areReports_nil, by simp [Table.keys]⟩ hrun
  intro before name _ t t' h h' ⟨ht, hkeys⟩ hstep
  obtain ⟨versions?, h₁, _, hstep⟩ := exists_of_runOn_bind hstep
  rcases versions? with _ | versions
  · cases hstep
  · refine runOn_foldlM_invariant_from (fun _ (t : Table String (Table String Api.Report)) =>
        AreReports t ∧ ∀ key ∈ t.keys, key ∈ before ++ [name])
      ?_ [] ⟨ht, fun key hkey => mem_append_left _ (hkeys key hkey)⟩ hstep
    intro _ v _ t t' h h' ⟨ht, hkeys⟩ hstep
    obtain ⟨_, _, _, hstep⟩ := exists_of_runOn_bind hstep
    obtain ⟨r?, _, _, hstep⟩ := exists_of_runOn_bind hstep
    rcases r? with _ | r
    · obtain rfl : t = t' := ok.inj (congrArg fst hstep)
      exact ⟨ht, hkeys⟩
    · obtain rfl := ok.inj (congrArg fst hstep)
      refine ⟨areReports_modify ht _ _ _, fun key hkey => ?_⟩
      rw [keys_modify, mem_addNew] at hkey
      rcases hkey with hkey | rfl
      · exact hkeys key hkey
      · simp

/-- A report on every file, and reports on versions of some of the packages. -/
structure IsGathered (c : Comparison) (g : Gathered) : Prop where
  files : g.files.keys = distinct c.infiles
  packages : AreReports g.packages
  names : ∀ name ∈ g.packages.keys, name ∈ c.names

theorem isGathered_of_gather {g : Gathered} (hrun : c.gather.runOn h = (.ok g, h')) :
    c.IsGathered g := by
  obtain ⟨language, _, _, hrun⟩ := exists_of_runOn_bind hrun
  obtain ⟨client, _, _, hrun⟩ := exists_of_runOn_bind hrun
  obtain ⟨files, _, hfiles, hrun⟩ := exists_of_runOn_bind hrun
  obtain ⟨packages, _, hpackages, hrun⟩ := exists_of_runOn_bind hrun
  obtain ⟨config, _, _, hres⟩ := exists_of_runOn_bind hrun
  obtain rfl := ok.inj (congrArg fst hres)
  obtain ⟨hreports, hnames⟩ := areReports_of_packageReports hpackages
  have hkeys := keys_of_fileReports hfiles
  exact ⟨hkeys, hreports, hnames⟩

/-! ## The comparison -/

theorem runOn_run {g : Gathered} {outfile : String} {h h₁ h₂ : Host}
    (houtfile : c.outfile = some outfile) (hne : outfile ≠ "") (hgather : c.gather.runOn h = (.ok g, h₁))
    (hcompare : (c.compare g).runOn h₁ = (.ok d, h₂)) : c.run.runOn h = (writePretty outfile d).runOn h₂ := by
  have hgiven : c.outfile.filter (fun p => !p.isEmpty) = some outfile := by
    simp [houtfile, hne]
  rw [run, runOn_bind hgather, runOn_bind hcompare, hgiven]

theorem runOn_compare_files {g : Gathered} (hg : g.packages = [])
    (hfiles : profileFiles (permissionsOf g.apis) g.files = .ok (s, files)) (h : Host) :
    (c.compare g).runOn h = (.ok (summary s (files.map fun (path, p) => (path, p.fields s)) []), h) := by
  have hlift : (liftM (profileFiles (permissionsOf g.apis) g.files) : Job _).runOn h =
      (.ok (s, files), h) := by rw [runOn_lift, hfiles]
  rw [compare, runOn_bind hlift, hg]
  rfl

theorem exists_of_runOn_compare_packages {g : Gathered} (hg : g.files = [])
    (hrun : (c.compare g).runOn h = (.ok d, h')) :
    ∃ all packages h₁, (c.profilePackages g.client (permissionsOf g.apis) {} g.packages).runOn h =
      (.ok (all, packages), h₁) ∧ d = summary all [] packages := by
  have hlift : (liftM (profileFiles (permissionsOf g.apis) []) : Job _).runOn h = (.ok ({}, []), h) :=
    rfl
  rw [compare, hg, runOn_bind hlift] at hrun
  obtain ⟨⟨all, packages⟩, h₁, hwalk, hrest⟩ := exists_of_runOn_bind hrun
  obtain ⟨_, _, _, hres⟩ := exists_of_runOn_bind hrest
  exact ⟨all, packages, h₁, hwalk, (ok.inj (congrArg fst hres)).symm⟩

theorem exists_runOn_profilePackages {c : Comparison} {watched : Table String String}
    {reports : Table String (Table String Api.Report)} (hanswer : ∀ r ∈ reports, ∀ v ∈ r.2, v.2.packages ≠ [] ∧
      ∃ deps, (client.dependencies r.1 (some v.1) false c.cacheOnly).runOn h = (.ok deps, h))
    (start : Shared) : ∃ res, (c.profilePackages client watched start reports).runOn h = (.ok res, h) := by
  refine exists_runOn_foldlM ?_ _
  rintro ⟨name, versions⟩ hmem ⟨s, packages⟩
  have hversion : ∀ v ∈ versions, ∀ sp, ∃ sp',
      (c.addVersion client watched name packages.isEmpty sp v).runOn h = (.ok sp', h) := by
    intro v hv sp
    obtain ⟨hne, deps, hdeps⟩ := hanswer _ hmem v hv
    obtain ⟨profile, hprofile⟩ := (ofReport_isOk_iff watched v.2).mpr hne
    have hlift : (liftM (Profile.ofReport watched v.2) : Job _).runOn h = (.ok profile, h) := by
      rw [runOn_lift, hprofile]
    exact ⟨_, by rw [addVersion, runOn_bind hlift, runOn_bind hdeps, runOn_pure]⟩
  obtain ⟨⟨all, p⟩, hwalk⟩ := exists_runOn_foldlM hversion (s, {})
  exact ⟨(all, packages ++ [(name, p)]), runOn_bind hwalk _⟩

theorem exists_runOn_writePackages {dir : String} (hdir : c.outdir = some dir) (all : Shared)
    (hwrite : ∀ name ∈ packages.keys,
      h.CanWrite (Path.join dir (Package.packageFile "compare_versions" name (some "json"))))
    {p : String} (hp : h.CanWrite p) :
    ∃ h', (c.writePackages all packages).runOn h = (.ok (), h') ∧ h'.CanWrite p := by
  rw [writePackages]
  rcases hlast : packages.getLast? with _ | ⟨last, profile⟩
  · exact ⟨h, rfl, hp⟩
  · have hresults : (liftM c.results : Job _).runOn h = (.ok dir, h) := by
      rw [runOn_lift, results, hdir]
    have hfile := hwrite last (mem_map_of_mem (mem_of_getLast? hlast))
    simp only [runOn_bind hresults]
    generalize Path.join dir (Package.packageFile "compare_versions" last (some "json")) = file at hfile
    clear hlast hwrite hresults
    induction packages generalizing h with
    | nil => exact ⟨h, rfl, hp⟩
    | cons q packages ih =>
      have hq : (writePretty file (q.2.toDoc all)).runOn h = _ := runOn_write hfile _
      obtain ⟨h', hrest, hp'⟩ := ih (canWrite_of_runOn_write hp hq) (canWrite_of_runOn_write hfile hq)
      refine ⟨h', ?_, hp'⟩
      rw [forIn_cons, bind_assoc, bind_assoc, runOn_bind hq, pure_bind]
      exact hrest

/-- Wherever a comparison ends well, its file holds a summary of which `P` is true. -/
def Leaves (c : Comparison) (host : Host) (outfile : String) (P : Doc → Prop) : Prop :=
  ∀ after, c.run.runOn host = (.ok (), after) → ∃ d, after.entry? outfile = some (.file (.text d.pretty)) ∧ P d

section

variable {c : Comparison} {g : Gathered} {outfile : String} {host between : Host}

theorem leaves_of_compare (houtfile : c.outfile = some outfile) (hne : outfile ≠ "")
    (hgather : c.gather.runOn host = (.ok g, between)) {P : Doc → Prop}
    (hP : ∀ d h, (c.compare g).runOn between = (.ok d, h) → P d) : c.Leaves host outfile P := by
  intro after hrun
  obtain ⟨g', h₁, hgather', hrest⟩ := exists_of_runOn_bind hrun
  obtain ⟨rfl, rfl⟩ : g = g' ∧ between = h₁ := by
    rw [hgather] at hgather'
    exact ⟨ok.inj (congrArg fst hgather'), congrArg snd hgather'⟩
  obtain ⟨d, h₂, hcompare, -⟩ := exists_of_runOn_bind hrest
  rw [runOn_run houtfile hne hgather hcompare] at hrun
  exact ⟨d, entry?_written hrun, hP d h₂ hcompare⟩

theorem exists_runOn_run (houtfile : c.outfile = some outfile) (hgather : c.gather.runOn host = (.ok g, between))
    (hcompare : (c.compare g).runOn between = (.ok d, h)) (hwrite : h.CanWrite outfile) :
    ∃ after, c.run.runOn host = (.ok (), after) :=
  ⟨_, by rw [runOn_run houtfile hwrite.1 hgather hcompare, writePretty, writeText, runOn_write hwrite]⟩

theorem IsGathered.files_eq_nil (hg : c.IsGathered g) (hinfiles : c.infiles = []) : g.files = [] := by
  have hkeys := hg.files
  rw [hinfiles] at hkeys
  exact map_eq_nil_iff.mp hkeys

theorem IsGathered.packages_eq_nil (hg : c.IsGathered g) (hnames : c.names = []) : g.packages = [] := by
  have hkeys : ∀ name, name ∉ g.packages.keys := fun name hname => by
    have := hg.names name hname
    simp [hnames] at this
  exact map_eq_nil_iff.mp (eq_nil_iff_forall_not_mem.mpr hkeys)

theorem IsGathered.summarisesFiles (hg : c.IsGathered g) (hinfiles : c.infiles ≠ []) (hnames : c.names = [])
    (hnew : ∀ file ∈ c.infiles, file ∉ Shared.fieldKeys) (hcompare : (c.compare g).runOn between = (.ok d, h)) :
    SummarisesFiles g.apis g.files d := by
  obtain ⟨⟨s, files⟩, h₁, hlift, -⟩ := exists_of_runOn_bind hcompare
  have hfiles : profileFiles (permissionsOf g.apis) g.files = .ok (s, files) := congrArg fst hlift
  rw [runOn_compare_files (hg.packages_eq_nil hnames) hfiles] at hcompare
  obtain rfl := ok.inj (congrArg fst hcompare)
  obtain ⟨hsums, hpaired⟩ := profileFiles_spec hfiles
  have hmem : ∀ file, file ∈ g.files.keys ↔ file ∈ c.infiles := fun file => by
    rw [hg.files, mem_distinct]
  refine Survey.summarisesFiles hsums hpaired ?_ ?_ fun file hfile => hnew file ((hmem file).mp hfile)
  · rintro hnil
    obtain ⟨file, hfile⟩ := exists_mem_of_ne_nil _ hinfiles
    have := (hmem file).mpr hfile
    simp [hnil, Table.keys] at this
  · rw [hg.files]
    exact nodup_distinct _

theorem IsGathered.summarisesPackages (hg : c.IsGathered g) (hinfiles : c.infiles = [])
    (hpackages : g.packages ≠ []) (hnew : ∀ name ∈ c.names, name ∉ Shared.fieldKeys)
    (hversions : ∀ r ∈ g.packages, ∀ version ∈ r.2.keys, version ∉ PackageProfile.fieldKeys)
    (hcompare : (c.compare g).runOn between = (.ok d, h)) : SummarisesPackages g.apis g.packages d := by
  obtain ⟨all, packages, h₁, hwalk, rfl⟩ :=
    exists_of_runOn_compare_packages (hg.files_eq_nil hinfiles) hcompare
  obtain ⟨hsums, hpaired⟩ := profilePackages_spec hg.packages hwalk
  exact Survey.summarisesPackages hsums hpaired hpackages hg.packages
    (fun name hname => hnew name (hg.names name hname)) hversions

/-- Of files, or of the versions of packages, a comparison tells the intersection and the union of what they use,
of each package the same for its versions, and of each file or version what it uses besides that intersection.
It ends well if every report is about a package, the file can be written and, for packages, their dependencies
are known. -/
theorem summary_of_run (houtfile : c.outfile = some outfile) (hne : outfile ≠ "")
    (hgather : c.gather.runOn host = (.ok g, between)) :
    (c.infiles ≠ [] → c.names = [] → (∀ file ∈ c.infiles, file ∉ Shared.fieldKeys) →
      g.files.keys = distinct c.infiles ∧
      c.Leaves host outfile (SummarisesFiles g.apis g.files) ∧
      ((∀ r ∈ g.files, r.2.packages ≠ []) → between.CanWrite outfile → ∃ after, c.run.runOn host = (.ok (), after))) ∧
    (c.infiles = [] → g.packages ≠ [] → (∀ name ∈ c.names, name ∉ Shared.fieldKeys) →
      (∀ r ∈ g.packages, ∀ version ∈ r.2.keys, version ∉ PackageProfile.fieldKeys) →
      (∀ name ∈ g.packages.keys, name ∈ c.names) ∧
      c.Leaves host outfile (SummarisesPackages g.apis g.packages) ∧
      ∀ dir, c.outdir = some dir → (∀ r ∈ g.packages, ∀ v ∈ r.2, v.2.packages ≠ [] ∧ ∃ deps,
          (g.client.dependencies r.1 (some v.1) false c.cacheOnly).runOn between = (.ok deps, between)) →
        (∀ name ∈ g.packages.keys,
          between.CanWrite (Path.join dir (Package.packageFile "compare_versions" name (some "json")))) →
        between.CanWrite outfile → ∃ after, c.run.runOn host = (.ok (), after)) := by
  have hg := isGathered_of_gather hgather
  refine ⟨fun hinfiles hnames hnew => ⟨hg.files, ?_, fun hreports hwrite => ?_⟩,
    fun hinfiles hpackages hnew hversions => ⟨hg.names, ?_, fun dir hdir hanswer hkept hwrite => ?_⟩⟩
  · exact leaves_of_compare houtfile hne hgather fun d h hcompare =>
      hg.summarisesFiles hinfiles hnames hnew hcompare
  · obtain ⟨⟨s, files⟩, hfiles⟩ := (profileFiles_isOk_iff (permissionsOf g.apis) g.files).mpr hreports
    have hcompare := runOn_compare_files (c := c) (hg.packages_eq_nil hnames) hfiles between
    exact exists_runOn_run houtfile hgather hcompare hwrite
  · exact leaves_of_compare houtfile hne hgather fun d h hcompare =>
      hg.summarisesPackages hinfiles hpackages hnew hversions hcompare
  · obtain ⟨⟨all, packages⟩, hwalk⟩ := exists_runOn_profilePackages hanswer {}
    obtain ⟨-, hpaired⟩ := profilePackages_spec hg.packages hwalk
    rw [← hpaired.keys_eq] at hkept
    obtain ⟨h', hwritten, hwrite'⟩ := exists_runOn_writePackages hdir all hkept hwrite
    have hlift : (liftM (profileFiles (permissionsOf g.apis) g.files) : Job _).runOn between =
        (.ok ({}, []), between) := by
      rw [hg.files_eq_nil hinfiles]
      rfl
    have hcompare : (c.compare g).runOn between = (.ok (summary all [] packages), h') := by
      rw [compare, Job.runOn_bind hlift, Job.runOn_bind hwalk, Job.runOn_bind hwritten]
      rfl
    exact exists_runOn_run houtfile hgather hcompare hwrite'

end

/-- Of two files and two versions of a package, the first uses an interface of the settings. -/
def comparedHost : Host where
  root := "/w"
  cwd := "/w"
  files := [
    ("/w/o", .directory), ("/w/c", .directory), ("/w/c/p", .directory),
    ("/w/c/p/p:latest.metadata.json", .file (.text
      "\x7b\"time\":\x7b\"1\":\"2018-01-01T00:00:00Z\",\"2\":\"2019-01-01T00:00:00Z\"\x7d\x7d")),
    ("/w/s", .file (.text "apis\x7bfull_name:\"f\" functionality:SINK\x7d")),
    ("/w/o/p:1.astgen.txt", .file (.text "pkgs\x7bapi_results\x7bfull_name:\"f\"\x7d\x7d")),
    ("/w/o/p:2.astgen.txt", .file (.text "pkgs\x7b\x7d")),
    ("/w/a.jar", .file (.text "")), ("/w/b.jar", .file (.text "")),
    ("/w/o/a.jar.out", .file (.text "pkgs\x7bapi_results\x7bfull_name:\"f\"\x7d\x7d")),
    ("/w/o/b.jar.out", .file (.text "pkgs\x7b\x7d"))]

def twoFiles : Comparison :=
  { infiles := ["a.jar", "b.jar"], language := .java, outdir := some "o", config := some "s",
    outfile := some "r" }

def twoVersions : Comparison :=
  { names := ["p"], language := .javascript, outdir := some "o", cacheDir := some "c",
    config := some "s", outfile := some "r" }

theorem summary_of_run_two : (∃ g between after d, twoFiles.gather.runOn comparedHost = (.ok g, between) ∧
      twoFiles.run.runOn comparedHost = (.ok (), after) ∧ g.files.keys = ["a.jar", "b.jar"] ∧
      after.entry? "r" = some (.file (.text d.pretty)) ∧ SummarisesFiles g.apis g.files d) ∧
    ∃ g between after d, twoVersions.gather.runOn comparedHost = (.ok g, between) ∧
      twoVersions.run.runOn comparedHost = (.ok (), after) ∧
      g.packages.map (fun r => r.2.keys) = [["1", "2"]] ∧
      after.entry? "r" = some (.file (.text d.pretty)) ∧ SummarisesPackages g.apis g.packages d := by
  refine ⟨?_, ?_⟩
  · have hfound : (twoFiles.gather.runOn comparedHost).1.toOption.map (·.files.keys) = some ["a.jar", "b.jar"] := by
      decide +kernel
    obtain ⟨g, hg, hfiles⟩ := Option.map_eq_some_iff.1 hfound
    obtain ⟨between, hgather⟩ := exists_runOn hg
    obtain ⟨after, hrun⟩ : ∃ after, twoFiles.run.runOn comparedHost = (.ok (), after) :=
      exists_runOn (by decide +kernel)
    obtain ⟨hkeys, hleaves, -⟩ :=
      (summary_of_run rfl (by decide) hgather).1 (by decide) rfl (by decide)
    obtain ⟨d, hentry, hd⟩ := hleaves after hrun
    exact ⟨g, between, after, d, hgather, hrun, hfiles, hentry, hd⟩
  · have hfound : (twoVersions.gather.runOn comparedHost).1.toOption.map (·.packages.map fun r => r.2.keys) =
        some [["1", "2"]] := by decide +kernel
    obtain ⟨g, hg, hkeys⟩ := Option.map_eq_some_iff.1 hfound
    obtain ⟨between, hgather⟩ := exists_runOn hg
    obtain ⟨after, hrun⟩ : ∃ after, twoVersions.run.runOn comparedHost = (.ok (), after) :=
      exists_runOn (by decide +kernel)
    have hne : g.packages ≠ [] := by
      rintro hnil
      simp [hnil] at hkeys
    have hnew : ∀ r ∈ g.packages, ∀ version ∈ r.2.keys, version ∉ PackageProfile.fieldKeys := by
      intro r hr version hversion
      have hmem := mem_map_of_mem (f := fun r : String × Table String Api.Report => r.2.keys) hr
      rw [hkeys, mem_singleton] at hmem
      rw [hmem] at hversion
      revert version
      decide
    obtain ⟨-, hleaves, -⟩ := (summary_of_run rfl (by decide) hgather).2 rfl hne (by decide) hnew
    obtain ⟨d, hentry, hd⟩ := hleaves after hrun
    exact ⟨g, between, after, d, hgather, hrun, hkeys, hentry, hd⟩

end Comparison

end Vetting.Survey
