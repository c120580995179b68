import Vetting.Proofs.Survey.Comparison

/-!
# The dependencies that versions have in common

A comparison keeps the names that all versions so far depend on. When none is left, it starts anew with the
next version, so the versions fall into stretches.
-/

namespace Vetting.Survey

open List Job Table

/-! ## Stretches of versions -/

abbrev VersionDeps := Table String (Table String Doc)

/-- The names that all of some versions depend on. -/
def inEach (versions : VersionDeps) : Set String := {name | ∀ v ∈ versions, name ∈ Table.keys v.2}

section

variable {earlier recent versions : VersionDeps} {v : String × Table String Doc}

theorem inEach_append : inEach (earlier ++ recent) = inEach earlier ∩ inEach recent := by
  ext name
  simp [inEach, or_imp, forall_and]

theorem mem_inEach_singleton {name : String} : name ∈ inEach [v] ↔ name ∈ keys v.2 := by
  simp [inEach]

/-- Versions without a new start: those before the last have a name in common. -/
def IsStretch (versions : VersionDeps) : Prop :=
  ∃ before last, versions = before ++ [last] ∧ (inEach before).Nonempty

/-- Stretches one after another that have all come to nothing. -/
inductive Spent : VersionDeps → Prop where
  | nil : Spent []
  | append {earlier stretch : VersionDeps} (hearlier : Spent earlier) (hstretch : IsStretch stretch)
      (hempty : inEach stretch = ∅) : Spent (earlier ++ stretch)

/-- The versions of a package up to the last new start, and those from there on. -/
structure SplitsAt (versions earlier recent : VersionDeps) : Prop where
  eq_append : versions = earlier ++ recent
  spent : Spent earlier
  stretch : IsStretch recent

theorem isStretch_singleton (v : String × Table String Doc) : IsStretch [v] :=
  ⟨[], v, rfl, "", by simp [inEach]⟩

theorem Spent.inEach_eq_empty (h : Spent versions) (hne : versions ≠ []) : inEach versions = ∅ := by
  cases h with
  | nil => exact absurd rfl hne
  | append _ _ hempty => rw [inEach_append, hempty, Set.inter_empty]

theorem SplitsAt.inEach_eq_iff (h : SplitsAt versions earlier recent) :
    inEach versions = inEach recent ↔ earlier = [] ∨ inEach recent = ∅ := by
  rw [h.eq_append, inEach_append]
  constructor
  · intro heq
    by_cases hearlier : earlier = []
    · exact .inl hearlier
    · rw [h.spent.inEach_eq_empty hearlier, Set.empty_inter] at heq
      exact .inr heq.symm
  · rintro (rfl | hempty)
    · simp [inEach]
    · rw [hempty, Set.inter_empty]

variable (names : List String)

/-- The names in common once one more version is taken in. -/
def meetDeps (deps : Table String Doc) : List String :=
  if names.isEmpty then deps.keys else common names deps.keys

/-- The names that are kept after some versions, beginning with others. -/
def runningDeps (versions : VersionDeps) : List String :=
  versions.foldl (fun names v => meetDeps names v.2) names

theorem runningDeps_append (earlier recent : VersionDeps) :
    runningDeps names (earlier ++ recent) = runningDeps (runningDeps names earlier) recent :=
  foldl_append ..

theorem runningDeps_concat (versions : VersionDeps) (v : String × Table String Doc) :
    runningDeps names (versions ++ [v]) = meetDeps (runningDeps names versions) v.2 :=
  runningDeps_append names versions [v]

theorem IsStretch.mem_runningDeps_iff (h : IsStretch versions) (name : String) :
    name ∈ runningDeps [] versions ↔ name ∈ inEach versions := by
  obtain ⟨before, last, rfl, hcommon⟩ := h
  induction before using List.reverseRecOn generalizing last name with
  | nil => simp [runningDeps, meetDeps, inEach]
  | append_singleton before v ih =>
    have hkept := fun name => ih name v (hcommon.mono (inEach_append ▸ Set.inter_subset_left))
    obtain ⟨other, hother⟩ := hcommon
    have hnames : runningDeps [] (before ++ [v]) ≠ [] := ne_nil_of_mem ((hkept other).2 hother)
    rw [runningDeps_concat, @inEach_append (before ++ [v]), Set.mem_inter_iff, mem_inEach_singleton]
    simp [meetDeps, hnames, common, hkept]

theorem Spent.runningDeps_eq_nil (h : Spent versions) : runningDeps [] versions = [] := by
  induction h with
  | nil => rfl
  | append _ hstretch hempty ih =>
    rw [runningDeps_append, ih, eq_nil_iff_forall_not_mem]
    intro name
    rw [hstretch.mem_runningDeps_iff, hempty]
    exact Set.notMem_empty name

theorem SplitsAt.mem_runningDeps_iff (h : SplitsAt versions earlier recent) (name : String) :
    name ∈ runningDeps [] versions ↔ name ∈ inEach recent := by
  rw [h.eq_append, runningDeps_append, h.spent.runningDeps_eq_nil, h.stretch.mem_runningDeps_iff]

theorem exists_splitsAt (hne : versions ≠ []) : ∃ earlier recent, SplitsAt versions earlier recent := by
  induction versions using List.reverseRecOn with
  | nil => exact absurd rfl hne
  | append_singleton before v ih =>
    by_cases hbefore : before = []
    · rw [hbefore]
      exact ⟨[], [v], rfl, .nil, isStretch_singleton v⟩
    · obtain ⟨earlier, recent, hsplit⟩ := ih hbefore
      rcases (inEach recent).eq_empty_or_nonempty with hempty | hcommon
      · refine ⟨before, [v], rfl, ?_, isStretch_singleton v⟩
        rw [hsplit.eq_append]
        exact .append hsplit.spent hsplit.stretch hempty
      · refine ⟨earlier, recent ++ [v], ?_, hsplit.spent, recent, v, rfl, hcommon⟩
        rw [hsplit.eq_append, append_assoc]

end

/-! ## What a comparison asks -/

variable {p : PackageProfile} {packages : Table String PackageProfile} {fields : Table String Doc}

namespace PackageProfile

def deps (p : PackageProfile) : VersionDeps := p.versions.map fun v => (v.1, v.2.deps)

theorem keys_deps (p : PackageProfile) : p.deps.keys = p.versions.keys := by
  simp [deps, Table.keys, Function.comp_def]

theorem deps_add {version : String} (hnew : version ∉ p.versions.keys) (v : VersionProfile) :
    (p.add version v).deps = p.deps ++ [(version, v.deps)] := by
  rw [deps, add, set_of_notMem hnew, map_append]
  rfl

/-- A package has some versions, and the names that are kept after them. -/
structure KeepsDeps (p : PackageProfile) (versions : Table String Api.Report) : Prop where
  common : p.commonDeps = runningDeps [] p.deps
  keys : p.versions.keys = versions.keys

theorem KeepsDeps.add {versions : Table String Api.Report} (h : p.KeepsDeps versions) {r : String × Api.Report}
    (hnew : r.1 ∉ versions.keys) (v : VersionProfile) :
    (p.add r.1 v).KeepsDeps (versions ++ [r]) where
  common := by
    rw [deps_add (h.keys ▸ hnew), runningDeps_concat, ← h.common]
    rfl
  keys := by
    rw [PackageProfile.add, Table.set_of_notMem (h.keys ▸ hnew), Table.keys, map_append]
    rw [Table.keys, map_append]
    exact congrArg (· ++ [r.1]) h.keys

end PackageProfile

variable {answers : Table String VersionDeps} {all : Shared} {d : Doc}

namespace Comparison

def askVersion (c : Comparison) (client : Registry.Client) (name : String) (v : String × Api.Report) :
    Job (String × Table String Doc) := do
  let deps ← client.dependencies name (some v.1) false c.cacheOnly
  return (v.1, deps.fieldsOf)

/-- Asks what the versions of a package depend on, one after another. -/
def askPackage (c : Comparison) (client : Registry.Client) (r : String × Table String Api.Report) :
    Job (String × VersionDeps) := do
  let versions ← r.2.mapM (c.askVersion client r.1)
  return (r.1, versions)

/-- Asks what the versions of all packages depend on, one package after another. -/
def askPackages (c : Comparison) (g : Gathered) : Job (Table String VersionDeps) :=
  g.packages.mapM (c.askPackage g.client)

section

variable {c : Comparison} {client : Registry.Client} {watched : Table String String} {name : String}
  {first : Bool} {h h' : Host}

/-- To take in a version is to ask what it depends on, and nothing else is done. -/
theorem runOn_addVersion_iff {sp sp' : Shared × PackageProfile} {v : String × Api.Report} :
    (c.addVersion client watched name first sp v).runOn h = (.ok sp', h') ↔
      ∃ profile deps, Profile.ofReport watched v.2 = .ok profile ∧
        (client.dependencies name (some v.1) false c.cacheOnly).runOn h = (.ok deps, h') ∧
        sp' = (sp.1.add (first && sp.2.versions.isEmpty) profile,
          sp.2.add v.1 { profile, deps := deps.fieldsOf }) := by
  constructor
  · intro hrun
    obtain ⟨profile, h₁, hlift, hrest⟩ := exists_of_runOn_bind hrun
    obtain ⟨deps, h₂, hdeps, hres⟩ := exists_of_runOn_bind hrest
    rw [runOn_lift] at hlift
    rw [runOn_pure] at hres
    obtain ⟨hprofile, rfl⟩ := Prod.mk.inj hlift
    obtain ⟨hsp, rfl⟩ := Prod.mk.inj hres
    exact ⟨profile, deps, hprofile, hdeps, (Except.ok.inj hsp).symm⟩
  · rintro ⟨profile, deps, hprofile, hdeps, rfl⟩
    have hlift : (liftM (Profile.ofReport watched v.2) : Job _).runOn h = (.ok profile, h) := by
      rw [runOn_lift, hprofile]
    rw [addVersion, runOn_bind hlift, runOn_bind hdeps, runOn_pure]

/-- The versions of a package are taken in with what they depend on. -/
theorem exists_askVersions {versions : Table String Api.Report} (hnodup : versions.keys.Nodup)
    {s : Shared} {sp : Shared × PackageProfile}
    (hrun : (versions.foldlM (c.addVersion client watched name first) (s, {})).runOn h = (.ok sp, h')) :
    (versions.mapM (c.askVersion client name)).runOn h = (.ok sp.2.deps, h') ∧ sp.2.KeepsDeps versions := by
  have hwalk := exists_runOn_mapM_of_foldlM (g := c.askVersion client name)
    (fun before (sp : Shared × PackageProfile) answers => (keys before).Nodup →
      answers = sp.2.deps ∧ sp.2.KeepsDeps before)
    ?_ [] (fun _ => ⟨rfl, rfl, rfl⟩) hrun
  · obtain ⟨answers, hask, hinv⟩ := hwalk
    obtain ⟨rfl, hkeeps⟩ := hinv hnodup
    exact ⟨hask, hkeeps⟩
  · rintro before v - sp answers sp' h h' hbefore hstep
    obtain ⟨profile, deps, -, hdeps, rfl⟩ := runOn_addVersion_iff.1 hstep
    refine ⟨(v.1, deps.fieldsOf), by rw [askVersion, runOn_bind hdeps, runOn_pure], fun hnodup => ?_⟩
    have hconcat : Table.keys (before ++ [v]) = (Table.keys before).concat v.1 := by simp [Table.keys]
    rw [hconcat, nodup_concat] at hnodup
    obtain ⟨rfl, hkeeps⟩ := hbefore hnodup.2
    have hnew : v.1 ∉ sp.2.versions.keys := hkeeps.keys ▸ hnodup.1
    exact ⟨(PackageProfile.deps_add hnew { profile, deps := deps.fieldsOf }).symm, hkeeps.add hnodup.1 _⟩

variable {reports : Table String (Table String Api.Report)}

/-- Packages are taken in with what their versions depend on. -/
theorem exists_askPackages (hnodup : ∀ r ∈ reports, r.2.keys.Nodup) {start s : Shared}
    (hrun : (c.profilePackages client watched start reports).runOn h = (.ok (s, packages), h')) :
    (reports.mapM (c.askPackage client)).runOn h = (.ok (packages.map fun p => (p.1, p.2.deps)), h') ∧
      Table.Paired (fun r p => PackageProfile.KeepsDeps p r) reports packages := by
  have hwalk := exists_runOn_mapM_of_foldlM (g := c.askPackage client)
    (fun before (sp : Shared × Table String PackageProfile) answers =>
      answers = sp.2.map (fun p => (p.1, p.2.deps)) ∧
        Table.Paired (fun r p => PackageProfile.KeepsDeps p r) before sp.2)
    ?_ [] ⟨rfl, paired_nil⟩ hrun
  · obtain ⟨answers, hask, rfl, hpaired⟩ := hwalk
    exact ⟨hask, hpaired⟩
  · rintro before ⟨name, versions⟩ hmem ⟨s, packages⟩ answers ⟨s', packages'⟩ h h' ⟨rfl, hpaired⟩ hstep
    obtain ⟨sp, h₁, hwalk, hres⟩ := exists_of_runOn_bind hstep
    obtain ⟨hask, hkeeps⟩ := exists_askVersions (hnodup _ hmem) hwalk
    rw [runOn_pure] at hres
    obtain ⟨hsp, rfl⟩ := Prod.mk.inj hres
    obtain ⟨rfl, rfl⟩ := Prod.mk.inj (Except.ok.inj hsp)
    refine ⟨(name, sp.2.deps), by rw [askPackage, runOn_bind hask, runOn_pure], ?_, hpaired.concat hkeeps name⟩
    rw [map_append]
    rfl

/-- Packages are taken in if it can be told what their versions depend on. -/
theorem exists_runOn_profilePackages_of_ask (hreports : ∀ r ∈ reports, ∀ v ∈ r.2, v.2.packages ≠ [])
    (hask : (reports.mapM (c.askPackage client)).runOn h = (.ok answers, h')) (watched : Table String String)
    (start : Shared) : ∃ sp, (c.profilePackages client watched start reports).runOn h = (.ok sp, h') := by
  refine exists_runOn_foldlM_of_mapM ?_ _ hask
  rintro ⟨name, versions⟩ hmem ⟨s, packages⟩ answer h h' hversions
  obtain ⟨deps, h₁, hdeps, hres⟩ := exists_of_runOn_bind hversions
  obtain rfl : h₁ = h' := congrArg Prod.snd hres
  obtain ⟨sp, hwalk⟩ : ∃ sp, (versions.foldlM (c.addVersion client watched name packages.isEmpty)
      (s, {})).runOn h = (.ok sp, h₁) := by
    refine exists_runOn_foldlM_of_mapM ?_ _ hdeps
    intro v hv sp answer h h' hanswer
    obtain ⟨d, h₁, hd, hres⟩ := exists_of_runOn_bind hanswer
    obtain rfl : h₁ = h' := congrArg Prod.snd hres
    obtain ⟨profile, hprofile⟩ := (ofReport_isOk_iff watched v.2).mpr (hreports _ hmem v hv)
    exact ⟨_, runOn_addVersion_iff.2 ⟨profile, d, hprofile, hd, rfl⟩⟩
  exact ⟨_, runOn_bind hwalk _⟩

end

end Comparison

/-! ## What a summary tells -/

def NamesAt (fields : Table String Doc) (key : String) (s : Set String) : Prop :=
  ∃ names : List String, fields.get? key = some (.arr (names.map .str)) ∧ ∀ name, name ∈ names ↔ name ∈ s

/-- The versions have some names in common, and of each version it is told what it depends on and which of these
names are not in common. -/
structure TellsDeps (fields : Table String Doc) (versions : VersionDeps) (shared : Set String) : Prop where
  common : NamesAt fields "common_deps" shared
  version : ∀ v ∈ versions, ∃ own, fields.get? v.1 = some (.obj own) ∧ Table.get? own "deps" = some (.obj v.2) ∧
    NamesAt own "uniq_deps" {name | name ∈ Table.keys v.2 ∧ name ∉ shared}

theorem NamesAt.unique {key : String} {s t : Set String} (hs : NamesAt fields key s) (ht : NamesAt fields key t) :
    s = t := by
  obtain ⟨xs, hxs, hs⟩ := hs
  obtain ⟨ys, hys, ht⟩ := ht
  have heq : xs.map Doc.str = ys.map Doc.str := by
    rw [hxs] at hys
    exact Doc.arr.inj (Option.some.inj hys)
  obtain rfl : xs = ys := map_injective_iff.2 (fun _ _ => Doc.str.inj) heq
  ext name
  rw [← hs, ht]

theorem TellsDeps.iff_eq {versions : VersionDeps} {shared : Set String} (h : TellsDeps fields versions shared)
    (s : Set String) : TellsDeps fields versions s ↔ s = shared := by
  constructor
  · exact fun hs => hs.common.unique h.common
  · rintro rfl
    exact h

theorem PackageProfile.tellsDeps (hfields : ∀ key, fields.get? key = get? (p.toDoc all).fieldsOf key)
    (hnodup : (keys (p.toDoc all).fieldsOf).Nodup) :
    TellsDeps fields p.deps {name | name ∈ p.commonDeps} where
  common := ⟨p.commonDeps, by rw [hfields]; rfl, fun _ => Iff.rfl⟩
  version v hv := by
    obtain ⟨w, hw, rfl⟩ := mem_map.1 hv
    have hmem : (w.1, Doc.obj (w.2.profile.fields all ++ [("deps", .obj w.2.deps),
        ("uniq_deps", .arr ((apart w.2.deps.keys p.commonDeps).map .str))])) ∈
        (p.toDoc all).fieldsOf :=
      mem_append_right _ (mem_map_of_mem hw)
    refine ⟨_, by rw [hfields, get?_of_mem hnodup hmem], rfl, _, rfl, fun name => ?_⟩
    simp [apart]

namespace Comparison

theorem keys_foldl_addFields (entries : Table String (Table String Doc)) (t : Table String Doc) :
    keys (entries.foldl (fun t e => addFields t e.1 e.2) t) = entries.keys.foldl addNew t.keys := by
  induction entries generalizing t with
  | nil => rfl
  | cons e entries ih =>
    rw [foldl_cons, ih, addFields, keys_modify]
    rfl

/-- A package stands in a summary under its name, beside what is shared and the files. -/
theorem get?_summary_package {files : Table String (Table String Doc)} (hnodup : packages.keys.Nodup)
    (hnew : ∀ name ∈ packages.keys, name ∉ Shared.fieldKeys ∧ name ∉ files.keys) {p : String × PackageProfile}
    (hp : p ∈ packages) (hdoc : (keys (p.2.toDoc all).fieldsOf).Nodup) :
    ∃ fields, get? (summary all files packages).fieldsOf p.1 = some (.obj fields) ∧
      ∀ key, get? fields key = get? (p.2.toDoc all).fieldsOf key := by
  have hbase : ∀ name ∈ packages.keys,
      name ∉ keys (files.foldl (fun t e => addFields t e.1 e.2) all.fields) := by
    intro name hname
    rw [keys_foldl_addFields, mem_foldl_addNew, not_or]
    exact hnew name hname
  have hown := (get?_foldl_addFields_map _ hnodup hbase fun p => (p.toDoc all).fieldsOf).2 p hp hdoc
  rwa [foldl_map] at hown

section

variable {c : Comparison} {g : Gathered} {outfile : String} {host between : Host}

theorem exists_steps_of_runOn_compare {h h' : Host} (hrun : (c.compare g).runOn h = (.ok d, h')) :
    ∃ shared files all packages asked, profileFiles (permissionsOf g.apis) g.files = .ok (shared, files) ∧
      (c.profilePackages g.client (permissionsOf g.apis) shared g.packages).runOn h = (.ok (all, packages), asked) ∧
      (c.writePackages all packages).runOn asked = (.ok (), h') ∧
      d = summary all (files.map fun f => (f.1, f.2.fields shared)) packages := by
  obtain ⟨⟨shared, files⟩, h₁, hlift, hrest⟩ := exists_of_runOn_bind hrun
  rw [runOn_lift] at hlift
  obtain ⟨hfiles, rfl⟩ := Prod.mk.inj hlift
  obtain ⟨⟨all, packages⟩, asked, hwalk, hrest⟩ := exists_of_runOn_bind hrest
  obtain ⟨_, _, hwritten, hres⟩ := exists_of_runOn_bind hrest
  obtain ⟨hd, rfl⟩ := Prod.mk.inj hres
  exact ⟨shared, files, all, packages, asked, hfiles, hwalk, hwritten, (Except.ok.inj hd).symm⟩

theorem exists_of_runOn_compare {h h' : Host} (hrun : (c.compare g).runOn h = (.ok d, h')) :
    ∃ shared files all packages asked, profileFiles (permissionsOf g.apis) g.files = .ok (shared, files) ∧
      (c.profilePackages g.client (permissionsOf g.apis) shared g.packages).runOn h = (.ok (all, packages), asked) ∧
      d = summary all (files.map fun f => (f.1, f.2.fields shared)) packages := by
  obtain ⟨shared, files, all, packages, asked, hfiles, hwalk, -, hd⟩ := exists_steps_of_runOn_compare hrun
  exact ⟨shared, files, all, packages, asked, hfiles, hwalk, hd⟩

theorem exists_tellsDeps_summary (hg : IsGathered c g)
    (hnew : ∀ name ∈ c.names, name ∉ Shared.fieldKeys ∧ name ∉ c.infiles)
    (hversions : ∀ r ∈ g.packages, ∀ version ∈ r.2.keys, version ∉ PackageProfile.fieldKeys) {shared : Shared}
    {files : Table String Profile} (hfiles : profileFiles (permissionsOf g.apis) g.files = .ok (shared, files))
    (all : Shared) (hpaired : Table.Paired (fun r p => PackageProfile.KeepsDeps p r) g.packages packages)
    {r : String × Table String Api.Report} (hr : r ∈ g.packages) :
    ∃ p fields, (r.1, p) ∈ packages ∧ p.KeepsDeps r.2 ∧
      get? (summary all (files.map fun f => (f.1, f.2.fields shared)) packages).fieldsOf r.1 =
        some (.obj fields) ∧
      TellsDeps fields p.deps {name | name ∈ p.commonDeps} := by
  obtain ⟨p, hp, hkeeps⟩ := hpaired.exists_of_mem hr
  have hdoc : (keys (p.toDoc all).fieldsOf).Nodup := by
    rw [PackageProfile.keys_toDoc, hkeeps.keys]
    exact List.Nodup.append (by decide) (hg.packages.versions_nodup r hr)
      fun key hkey hversion => hversions r hr key hversion hkey
  have hfileKeys : Table.keys (files.map fun f => (f.1, f.2.fields shared)) = distinct c.infiles := by
    rw [← hg.files, ← (profileFiles_spec hfiles).2.keys_eq]
    simp [Table.keys, Function.comp_def]
  have hbeside : ∀ name ∈ packages.keys, name ∉ Shared.fieldKeys ∧
      name ∉ Table.keys (files.map fun f => (f.1, f.2.fields shared)) := by
    intro name hname
    rw [hpaired.keys_eq] at hname
    rw [hfileKeys, mem_distinct]
    exact hnew name (hg.names name hname)
  have hnodup : packages.keys.Nodup := by
    rw [hpaired.keys_eq]
    exact hg.packages.nodup
  obtain ⟨fields, hget, hfields⟩ := get?_summary_package hnodup hbeside hp hdoc
  exact ⟨p, fields, hp, hkeeps, hget, PackageProfile.tellsDeps hfields hdoc⟩

/-- A comparison comes through if dependencies can be told and files can be written. -/
theorem exists_runOn_compare_of_ask (hnodup : ∀ r ∈ g.packages, r.2.keys.Nodup) {asked : Host} {dir : String}
    (hask : (c.askPackages g).runOn between = (.ok answers, asked)) (hfiles : ∀ r ∈ g.files, r.2.packages ≠ [])
    (hpackages : ∀ r ∈ g.packages, ∀ v ∈ r.2, v.2.packages ≠ []) (hdir : c.outdir = some dir)
    (hkept : ∀ name ∈ g.packages.keys,
      asked.CanWrite (Path.join dir (Package.packageFile "compare_versions" name (some "json"))))
    (hwrite : asked.CanWrite outfile) : ∃ d h', (c.compare g).runOn between = (.ok d, h') ∧ h'.CanWrite outfile := by
  obtain ⟨⟨shared, files⟩, hprofiles⟩ :=
    (profileFiles_isOk_iff (permissionsOf g.apis) g.files).mpr hfiles
  obtain ⟨⟨all, packages⟩, hwalk⟩ :=
    exists_runOn_profilePackages_of_ask hpackages hask (permissionsOf g.apis) shared
  obtain ⟨-, hpaired⟩ := exists_askPackages hnodup hwalk
  rw [← hpaired.keys_eq] at hkept
  obtain ⟨h', hwritten, hwrite'⟩ := exists_runOn_writePackages hdir all hkept hwrite
  have hlift : (liftM (profileFiles (permissionsOf g.apis) g.files) : Job _).runOn between =
      (.ok (shared, files), between) := by rw [runOn_lift, hprofiles]
  refine ⟨summary all (files.map fun f => (f.1, f.2.fields shared)) packages, h', ?_, hwrite'⟩
  rw [compare, runOn_bind hlift, runOn_bind hwalk, runOn_bind hwritten]
  rfl

/-- A comparison asks what each version depends on and nothing else until it writes. The names that it tells as
common are those that all versions since the last new start depend on, and the names that set a version apart
are the others. So these are the names that all versions depend on, and the others, exactly if there was no
new start, or if the versions since the last one have no name in common. -/
theorem commonDeps_of_run (houtfile : c.outfile = some outfile) (hne : outfile ≠ "")
    (hgather : c.gather.runOn host = (.ok g, between))
    (hnew : ∀ name ∈ c.names, name ∉ Shared.fieldKeys ∧ name ∉ c.infiles)
    (hversions : ∀ r ∈ g.packages, ∀ version ∈ r.2.keys, version ∉ PackageProfile.fieldKeys) :
    (c.Leaves host outfile fun d => ∃ answers asked, (c.askPackages g).runOn between = (.ok answers, asked) ∧
      ∀ r ∈ g.packages, ∃ versions fields, (r.1, versions) ∈ answers ∧ versions.keys = r.2.keys ∧
        Table.get? d.fieldsOf r.1 = some (.obj fields) ∧
        (∃ earlier recent, SplitsAt versions earlier recent) ∧
        ∀ earlier recent, SplitsAt versions earlier recent → TellsDeps fields versions (inEach recent) ∧
          (TellsDeps fields versions (inEach versions) ↔ earlier = [] ∨ inEach recent = ∅)) ∧
    ∀ answers asked dir, (c.askPackages g).runOn between = (.ok answers, asked) →
      (∀ r ∈ g.files, r.2.packages ≠ []) → (∀ r ∈ g.packages, ∀ v ∈ r.2, v.2.packages ≠ []) →
      c.outdir = some dir →
      (∀ name ∈ g.packages.keys,
        asked.CanWrite (Path.join dir (Package.packageFile "compare_versions" name (some "json")))) →
      asked.CanWrite outfile → ∃ after, c.run.runOn host = (.ok (), after) := by
  have hg := isGathered_of_gather hgather
  refine ⟨leaves_of_compare houtfile hne hgather fun d h hcompare => ?_,
    fun answers asked dir hask hfiles hpackages hdir hkept hwrite => ?_⟩
  · obtain ⟨shared, files, all, packages, asked, hfiles, hwalk, rfl⟩ := exists_of_runOn_compare hcompare
    obtain ⟨hask, hpaired⟩ := exists_askPackages hg.packages.versions_nodup hwalk
    refine ⟨_, asked, hask, fun r hr => ?_⟩
    obtain ⟨p, fields, hp, hkeeps, hget, htells⟩ :=
      exists_tellsDeps_summary hg hnew hversions hfiles all hpaired hr
    have hkeys : p.deps.keys = r.2.keys := p.keys_deps.trans hkeeps.keys
    have hdeps : p.deps ≠ [] := by
      rintro hnil
      rw [hnil] at hkeys
      exact hg.packages.versions_ne r hr (map_eq_nil_iff.1 hkeys.symm)
    refine ⟨p.deps, fields, mem_map_of_mem (f := fun p => (p.1, p.2.deps)) hp, hkeys, hget,
      exists_splitsAt hdeps, fun earlier recent hsplit => ?_⟩
    have hshared : {name | name ∈ p.commonDeps} = inEach recent := by
      ext name
      rw [hkeeps.common]
      exact hsplit.mem_runningDeps_iff name
    rw [hshared] at htells
    exact ⟨htells, (htells.iff_eq _).trans hsplit.inEach_eq_iff⟩
  · obtain ⟨d, h', hcompare, hwrite'⟩ := exists_runOn_compare_of_ask hg.packages.versions_nodup hask
      hfiles hpackages hdir hkept hwrite
    exact exists_runOn_run houtfile hgather hcompare hwrite'

end

/-- The first and the third of three versions depend on one package, the second on another. -/
def threeVersionsHost : Host where
  root := "/w"
  cwd := "/w"
  files := [
    ("/w/o", .directory), ("/w/c", .directory), ("/w/c/p", .directory), ("/w/s", .file (.text "")),
    ("/w/c/p/p:latest.metadata.json", .file (.text
      "\x7b\"time\":\x7b\"1\":\"2017-01-01\",\"2\":\"2018-01-01\",\"3\":\"2019-01-01\"\x7d\x7d")),
    ("/w/o/p:1.astgen.txt", .file (.text "pkgs\x7b\x7d")),
    ("/w/o/p:2.astgen.txt", .file (.text "pkgs\x7b\x7d")),
    ("/w/o/p:3.astgen.txt", .file (.text "pkgs\x7b\x7d")),
    ("/w/c/p/p:1.dep.json", .file (.text "\x7b\"a\":\"1\"\x7d")),
    ("/w/c/p/p:2.dep.json", .file (.text "\x7b\"b\":\"1\"\x7d")),
    ("/w/c/p/p:3.dep.json", .file (.text "\x7b\"a\":\"1\"\x7d"))]

def threeVersions : Comparison :=
  { names := ["p"], language := .javascript, outdir := some "o", cacheDir := some "c",
    config := some "s", outfile := some "r" }

/-- Gathers and asks, and tells whether something is true of what was found. -/
def askLooking (c : Comparison) (holds : Gathered → Table String VersionDeps → Host → Bool) : Job Bool := do
  let g ← c.gather
  let answers ← c.askPackages g
  let h ← get
  return holds g answers h

theorem exists_of_askLooking {c : Comparison} {holds : Gathered → Table String VersionDeps → Host → Bool}
    {host : Host} (hlook : ((askLooking c holds).runOn host).1.toOption = some true) :
    ∃ g between answers asked, c.gather.runOn host = (.ok g, between) ∧
      (c.askPackages g).runOn between = (.ok answers, asked) ∧ holds g answers asked = true := by
  obtain ⟨after, hlook⟩ := exists_runOn hlook
  obtain ⟨g, between, hgather, hrest⟩ := exists_of_runOn_bind hlook
  obtain ⟨answers, asked, hask, hrest⟩ := exists_of_runOn_bind hrest
  exact ⟨g, between, answers, asked, hgather, hask, Except.ok.inj (congrArg Prod.fst hrest)⟩

/-- Each of the three versions has a report and is known, and the files can be written. -/
def threeVersionsKnown (g : Gathered) (answers : Table String VersionDeps) (h : Host) : Bool :=
  g.packages.map (fun r => (r.1, r.2.map fun v => (v.1, v.2.packages.isEmpty))) ==
      [("p", [("1", false), ("2", false), ("3", false)])] &&
    answers.map (fun p => (p.1, p.2.map fun v => (v.1, v.2.keys))) ==
      [("p", [("1", ["a"]), ("2", ["b"]), ("3", ["a"])])] &&
    decide (h.CanWrite "r" ∧ h.CanWrite "o/p.compare_versions.json")

theorem splitsAt_third {v₁ v₂ v₃ : String × Table String Doc} (h₁ : v₁.2.keys = ["a"])
    (h₂ : v₂.2.keys = ["b"]) : SplitsAt [v₁, v₂, v₃] [v₁, v₂] [v₃] where
  eq_append := rfl
  spent := by
    have hempty : inEach [v₁, v₂] = ∅ := by
      refine Set.eq_empty_of_forall_notMem fun name hname => ?_
      have ha : name = "a" := by simpa [h₁] using hname v₁ (by simp)
      have hb : name = "b" := by simpa [h₂] using hname v₂ (by simp)
      exact absurd (ha.symm.trans hb) (by decide)
    exact Spent.nil.append ⟨[v₁], v₂, rfl, "a", by simp [inEach, h₁]⟩ hempty
  stretch := isStretch_singleton v₃

theorem commonDeps_of_run_threeVersions :
    ∃ (g : Gathered) (between : Host) (answers : Table String VersionDeps) (asked after : Host) (d : Doc)
      (versions : VersionDeps) (fields : Table String Doc),
      threeVersions.gather.runOn threeVersionsHost = (.ok g, between) ∧
      (threeVersions.askPackages g).runOn between = (.ok answers, asked) ∧
      ("p", versions) ∈ answers ∧
      versions.map (fun v => (v.1, v.2.keys)) = [("1", ["a"]), ("2", ["b"]), ("3", ["a"])] ∧
      threeVersions.run.runOn threeVersionsHost = (.ok (), after) ∧
      after.entry? "r" = some (.file (.text d.pretty)) ∧
      Table.get? d.fieldsOf "p" = some (.obj fields) ∧
      TellsDeps fields versions {"a"} ∧ ¬TellsDeps fields versions (inEach versions) := by
  have hlook : ((askLooking threeVersions threeVersionsKnown).runOn threeVersionsHost).1.toOption =
      some true := by decide +kernel
  obtain ⟨g, between, answers, asked, hgather, hask, hknown⟩ := exists_of_askLooking hlook
  simp only [threeVersionsKnown, Bool.and_eq_true, beq_iff_eq, decide_eq_true_eq] at hknown
  obtain ⟨⟨hreports, hanswers⟩, hwrite, hkept⟩ := hknown
  obtain ⟨⟨name, reports⟩, hpackages, hreport⟩ := map_eq_singleton_iff.1 hreports
  obtain ⟨rfl, hreport⟩ := Prod.mk.inj hreport
  have hkeys : reports.keys = ["1", "2", "3"] := by
    have := congrArg (List.map Prod.fst) hreport
    simpa [Table.keys, Function.comp_def] using this
  have hfound : ∀ v ∈ reports, v.2.packages ≠ [] := by
    intro v hv hnil
    have := mem_map_of_mem (f := fun v => (v.1, v.2.packages.isEmpty)) hv
    simp [hreport, hnil] at this
  have hversions : ∀ r ∈ g.packages, ∀ version ∈ r.2.keys, version ∉ PackageProfile.fieldKeys := by
    simp only [hpackages, mem_singleton, forall_eq, hkeys]
    decide
  obtain ⟨hleaves, hends⟩ :=
    commonDeps_of_run (c := threeVersions) rfl (by decide) hgather (by decide) hversions
  have hfiles : g.files = [] := (isGathered_of_gather hgather).files_eq_nil rfl
  have hpath : Path.join "o" (Package.packageFile "compare_versions" "p" (some "json")) =
      "o/p.compare_versions.json" := by decide
  obtain ⟨after, hrun⟩ := hends answers asked "o" hask (by simp [hfiles])
    (by simpa [hpackages] using hfound) rfl (by simpa [hpackages, Table.keys, hpath] using hkept) hwrite
  obtain ⟨d, hentry, answers', asked', hask', hreported⟩ := hleaves after hrun
  obtain rfl : answers = answers' := by
    rw [hask] at hask'
    exact Except.ok.inj (congrArg Prod.fst hask')
  obtain ⟨versions, fields, hmem, -, hget, -, htells⟩ := hreported ("p", reports) (by simp [hpackages])
  obtain ⟨p, rfl, hp⟩ := map_eq_singleton_iff.1 hanswers
  obtain rfl := mem_singleton.1 hmem
  have hdeps := (Prod.mk.inj hp).2
  obtain ⟨v₁, _, rfl, h₁, hrest⟩ := map_eq_cons_iff.1 hdeps
  obtain ⟨v₂, _, rfl, h₂, hrest⟩ := map_eq_cons_iff.1 hrest
  obtain ⟨v₃, rfl, h₃⟩ := map_eq_singleton_iff.1 hrest
  have hrecent : inEach [v₃] = {"a"} := by
    ext name
    simp [inEach, (Prod.mk.inj h₃).2]
  obtain ⟨hlast, hall⟩ := htells _ _ (splitsAt_third (Prod.mk.inj h₁).2 (Prod.mk.inj h₂).2)
  rw [hrecent] at hlast hall
  refine ⟨g, between, _, asked, after, d, _, fields, hgather, hask, hmem, hdeps, hrun, hentry, hget, hlast, ?_⟩
  rw [hall]
  simp

end Comparison

end Vetting.Survey
