import Vetting.Proofs.Package.Name
import Vetting.Proofs.Path
import Vetting.Proofs.Survey.CommonDeps

/-!
# The files of the packages of a comparison

All summaries are written to the file of the last package, so only the last one is left.
-/

namespace Vetting.Survey.Comparison

open List Package Job

/-- The file in a directory that the summary of a package belongs to. -/
def versionsFile (dir name : String) : String :=
  Path.join dir (packageFile "compare_versions" name (some "json"))

theorem toList_packageFile (name : String) : (packageFile "compare_versions" name (some "json")).toList =
      (forFile name).toList ++ ".compare_versions.json".toList := by
  simp only [packageFile, String.toList_append, append_assoc]
  rfl

theorem isName_packageFile (name : String) : Path.IsName (packageFile "compare_versions" name (some "json")) := by
  have hchars := toList_packageFile name
  have hlong : 2 < (packageFile "compare_versions" name (some "json")).toList.length := by
    rw [hchars, length_append, show ".compare_versions.json".toList.length = 22 from rfl]
    omega
  refine ⟨?_, ?_, ?_, ?_⟩
  · rw [hchars, mem_append, not_or]
    exact ⟨slash_notMem_forFile name, by decide⟩
  all_goals
    intro heq
    rw [heq] at hlong
    revert hlong
    decide

theorem forFile_eq_of_versionsFile {h : Host} {dir a b : String}
    (hsame : h.absolutePath (versionsFile dir a) = h.absolutePath (versionsFile dir b)) :
    forFile a = forFile b := by
  have hfile := h.absolutePath_join_inj dir (isName_packageFile a) (isName_packageFile b) hsame
  have hchars := congrArg String.toList hfile
  rw [toList_packageFile, toList_packageFile] at hchars
  exact String.toList_inj.1 (append_cancel_right hchars)

/-! ## Writing the summaries -/

variable {packages : Table String PackageProfile} {all : Shared}

/-- Of summaries that are written to one file the last one is left. -/
theorem entry?_of_runOn_writes {file : String} {h h' : Host} (hrun : (forIn packages PUnit.unit fun r _ => do
      writePretty file (r.2.toDoc all)
      return .yield PUnit.unit : Job PUnit).runOn h = (.ok PUnit.unit, h')) :
    h'.absolutePath = h.absolutePath ∧
      (∀ r, packages.getLast? = some r → h'.entry? file = some (.file (.text (r.2.toDoc all).pretty))) ∧
      ∀ q, h.absolutePath q ≠ h.absolutePath file → h'.entry? q = h.entry? q := by
  induction packages generalizing h with
  | nil =>
    obtain ⟨-, rfl⟩ := Prod.mk.inj hrun
    exact ⟨rfl, fun r hr => by simp at hr, fun q _ => rfl⟩
  | cons r packages ih =>
    rw [forIn_cons, bind_assoc] at hrun
    obtain ⟨_, h₁, hwrite, hrest⟩ := exists_of_runOn_bind hrun
    rw [pure_bind] at hrest
    have hpaths := (along_write _ _).stays.absolutePath_eq hwrite
    obtain ⟨hpaths', hlast, hother⟩ := ih hrest
    refine ⟨hpaths'.trans hpaths, fun last hlast' => ?_, fun q hq => ?_⟩
    · cases packages with
      | nil =>
        obtain rfl : r = last := by simpa using hlast'
        obtain ⟨-, rfl⟩ := Prod.mk.inj hrest
        exact entry?_written hwrite
      | cons r' packages => exact hlast last (by simpa using hlast')
    · rw [hother q (by rwa [hpaths]), entry?_of_runOn_write hwrite, if_neg fun hsame => hq hsame.2]

/-- What the summaries of packages leave. -/
theorem entry?_of_runOn_writePackages {c : Comparison} {dir : String} (hdir : c.outdir = some dir) {h h' : Host}
    (hrun : (c.writePackages all packages).runOn h = (.ok (), h')) :
    h'.absolutePath = h.absolutePath ∧ ∀ last, packages.getLast? = some last →
      h'.entry? (versionsFile dir last.1) = some (.file (.text (last.2.toDoc all).pretty)) ∧
      ∀ q, h.absolutePath q ≠ h.absolutePath (versionsFile dir last.1) → h'.entry? q = h.entry? q := by
  rw [writePackages] at hrun
  cases hlast : packages.getLast? with
  | none =>
    rw [hlast] at hrun
    obtain ⟨-, rfl⟩ := Prod.mk.inj hrun
    exact ⟨rfl, by simp⟩
  | some last =>
    have hresults : (liftM c.results : Job _).runOn h = (.ok dir, h) := by
      rw [runOn_lift, results, hdir]
    rw [hlast] at hrun
    dsimp only at hrun
    rw [runOn_bind hresults] at hrun
    obtain ⟨_, h₁, hloop, hdone⟩ := exists_of_runOn_bind hrun
    obtain ⟨-, rfl⟩ := Prod.mk.inj hdone
    obtain ⟨hpaths, hwritten, hother⟩ := entry?_of_runOn_writes hloop
    refine ⟨hpaths, fun last' heq => ?_⟩
    obtain rfl := Option.some.inj heq
    exact ⟨hwritten last hlast, hother⟩

/-- A comparison ends with its summary, which goes to a file if one is given. -/
theorem exists_of_runOn_run {c : Comparison} {g : Gathered} {host between after : Host}
    (hgather : c.gather.runOn host = (.ok g, between)) (hrun : c.run.runOn host = (.ok (), after)) :
    ∃ d h, (c.compare g).runOn between = (.ok d, h) ∧
      (after = h ∨ ∃ outfile, c.outfile = some outfile ∧ (writePretty outfile d).runOn h = (.ok (), after)) := by
  rw [run, runOn_bind hgather] at hrun
  obtain ⟨d, h, hcompare, hrest⟩ := exists_of_runOn_bind hrun
  refine ⟨d, h, hcompare, ?_⟩
  cases houtfile : c.outfile.filter fun p => !p.isEmpty with
  | none =>
    rw [houtfile] at hrest
    exact .inl (congrArg Prod.snd hrest).symm
  | some outfile =>
    rw [houtfile] at hrest
    exact .inr ⟨outfile, (Option.filter_eq_some_iff.1 houtfile).1, hrest⟩

/-- What was written is left where the summary of all goes elsewhere. -/
theorem entry?_of_summary_elsewhere {c : Comparison} {d : Doc} {h after : Host} (hend : after = h ∨
      ∃ outfile, c.outfile = some outfile ∧ (writePretty outfile d).runOn h = (.ok (), after)) :
    after.absolutePath = h.absolutePath ∧ ∀ q,
      (∀ outfile, c.outfile = some outfile → after.absolutePath outfile ≠ after.absolutePath q) →
      after.entry? q = h.entry? q := by
  rcases hend with rfl | ⟨outfile, houtfile, hwrite⟩
  · exact ⟨rfl, fun q _ => rfl⟩
  · have hpaths := (along_write _ _).stays.absolutePath_eq hwrite
    refine ⟨hpaths, fun q hq => ?_⟩
    have hne := hq outfile houtfile
    rw [hpaths] at hne
    rw [entry?_of_runOn_write hwrite, if_neg fun hsame => hne hsame.2.symm]

def Holds (all : Shared) (dir : String) (h : Host) (r : String × PackageProfile) : Prop :=
  h.entry? (versionsFile dir r.1) = some (.file (.text (r.2.toDoc all).pretty))

/-- The file of the last package holds its summary, and the others are as they were. -/
structure LeavesLast (all : Shared) (dir : String) (packages : Table String PackageProfile)
    (asked after : Host) : Prop where
  last : ∀ r, packages.getLast? = some r → Holds all dir after r
  other : ∀ r ∈ packages, packages.getLast? ≠ some r →
    after.entry? (versionsFile dir r.1) = asked.entry? (versionsFile dir r.1)

theorem LeavesLast.all_hold_iff {dir : String} {asked after : Host}
    (hleft : LeavesLast all dir packages asked after) (hnodup : packages.keys.Nodup)
    (hnone : ∀ r ∈ packages, asked.entry? (versionsFile dir r.1) = none) :
    (∀ r ∈ packages, Holds all dir after r) ↔ packages.length ≤ 1 := by
  rcases packages with _ | ⟨r, _ | ⟨r', packages⟩⟩
  · simp
  · simpa using hleft.last r rfl
  · refine iff_of_false (fun hall => ?_) (by simp)
    have hne : (r :: r' :: packages).getLast? ≠ some r := by
      intro hlast
      rw [getLast?_cons_cons] at hlast
      exact (nodup_cons.1 hnodup).1 (mem_map_of_mem (mem_of_getLast? hlast))
    have hholds := hall r mem_cons_self
    rw [Holds, hleft.other r mem_cons_self hne, hnone r mem_cons_self] at hholds
    cases hholds

section

variable {c : Comparison} {g : Gathered} {host between : Host} {dir : String}

/-- If the names of packages are told apart in file names and the summary of all goes elsewhere, the file of the
last package holds its summary, and the others are as they were. So if none of them was there, every file
holds the summary of its package just if there is at most one package. -/
theorem packageFiles_of_run (hdir : c.outdir = some dir)
    (hnames : ∀ a ∈ c.names, ∀ b ∈ c.names, Package.forFile a = Package.forFile b → a = b)
    (hgather : c.gather.runOn host = (.ok g, between)) :
    (∀ after, c.run.runOn host = (.ok (), after) → (∀ outfile, c.outfile = some outfile → ∀ name ∈ c.names,
        after.absolutePath outfile ≠ after.absolutePath (versionsFile dir name)) →
      ∃ shared files all packages asked, profileFiles (permissionsOf g.apis) g.files = .ok (shared, files) ∧
        (c.profilePackages g.client (permissionsOf g.apis) shared g.packages).runOn between =
          (.ok (all, packages), asked) ∧
        packages.keys = g.packages.keys ∧
        (∀ r ∈ packages, ∀ r' ∈ packages,
          after.absolutePath (versionsFile dir r.1) = after.absolutePath (versionsFile dir r'.1) → r = r') ∧
        LeavesLast all dir packages asked after ∧
        ((∀ r ∈ packages, asked.entry? (versionsFile dir r.1) = none) →
          ((∀ r ∈ packages, Holds all dir after r) ↔ packages.length ≤ 1))) ∧
    ∀ answers asked outfile, (c.askPackages g).runOn between = (.ok answers, asked) →
      (∀ r ∈ g.files, r.2.packages ≠ []) → (∀ r ∈ g.packages, ∀ v ∈ r.2, v.2.packages ≠ []) →
      (∀ name ∈ g.packages.keys, asked.CanWrite (versionsFile dir name)) →
      c.outfile = some outfile → asked.CanWrite outfile → ∃ after, c.run.runOn host = (.ok (), after) := by
  have hg := isGathered_of_gather hgather
  refine ⟨fun after hrun hout => ?_, fun answers asked outfile hask hfiles hpackages hkept houtfile hwrite => ?_⟩
  · obtain ⟨d, h, hcompare, hend⟩ := exists_of_runOn_run hgather hrun
    obtain ⟨shared, files, all, packages, asked, hfiles, hwalk, hwritten, -⟩ :=
      exists_steps_of_runOn_compare hcompare
    obtain ⟨-, hpaired⟩ := exists_askPackages hg.packages.versions_nodup hwalk
    obtain ⟨hpaths, hentry⟩ := entry?_of_runOn_writePackages hdir hwritten
    obtain ⟨hpaths', hkept⟩ := entry?_of_summary_elsewhere hend
    have hkeys := hpaired.keys_eq
    have hnodup : packages.keys.Nodup := hkeys ▸ hg.packages.nodup
    have hname : ∀ r ∈ packages, r.1 ∈ c.names := fun r hr => hg.names _ (hkeys ▸ mem_map_of_mem hr)
    have hown : ∀ r ∈ packages, ∀ r' ∈ packages,
        after.absolutePath (versionsFile dir r.1) = after.absolutePath (versionsFile dir r'.1) → r = r' := by
      intro r hr r' hr' hsame
      have hkey := hnames _ (hname r hr) _ (hname r' hr') (forFile_eq_of_versionsFile hsame)
      exact inj_on_of_nodup_map hnodup hr hr' hkey
    have hleft : LeavesLast all dir packages asked after := by
      refine ⟨fun r hr => ?_, fun r hr hne => ?_⟩
      · rw [Holds, hkept _ fun outfile houtfile => hout outfile houtfile _ (hname r (mem_of_getLast? hr))]
        exact ((hentry r hr).1)
      · rw [hkept _ fun outfile houtfile => hout outfile houtfile _ (hname r hr)]
        cases hlast : packages.getLast? with
        | none => simp [getLast?_eq_none_iff.1 hlast] at hr
        | some last =>
          refine (hentry last hlast).2 _ fun hsame => hne ?_
          rw [← hpaths, ← hpaths'] at hsame
          rw [hlast, hown r hr last (mem_of_getLast? hlast) hsame]
    refine ⟨shared, files, all, packages, asked, hfiles, hwalk, hkeys, hown, hleft, hleft.all_hold_iff hnodup⟩
  · obtain ⟨d, h', hcompare, hwrite'⟩ := exists_runOn_compare_of_ask hg.packages.versions_nodup hask
      hfiles hpackages hdir hkept hwrite
    exact exists_runOn_run houtfile hgather hcompare hwrite'

end

def twoPackagesHost : Host where
  root := "/w"
  cwd := "/w"
  files := [
    ("/w/o", .directory), ("/w/c", .directory), ("/w/c/p", .directory), ("/w/c/q", .directory),
    ("/w/s", .file (.text "")),
    ("/w/c/p/p:latest.metadata.json", .file (.text "\x7b\"time\":\x7b\"1\":\"2017-01-01\"\x7d\x7d")),
    ("/w/c/q/q:latest.metadata.json", .file (.text "\x7b\"time\":\x7b\"1\":\"2017-01-01\"\x7d\x7d")),
    ("/w/o/p:1.astgen.txt", .file (.text "pkgs\x7b\x7d")), ("/w/o/q:1.astgen.txt", .file (.text "pkgs\x7b\x7d")),
    ("/w/c/p/p:1.dep.json", .file (.text "\x7b\x7d")), ("/w/c/q/q:1.dep.json", .file (.text "\x7b\x7d"))]

def twoPackages : Comparison :=
  { names := ["p", "q"], language := .javascript, outdir := some "o", cacheDir := some "c",
    config := some "s", outfile := some "r" }

/-- Each of the two packages has a report, and their files can be written. -/
def twoPackagesKnown (g : Gathered) (_ : Table String VersionDeps) (h : Host) : Bool :=
  g.packages.map (fun r => (r.1, r.2.map fun v => (v.1, v.2.packages.isEmpty))) ==
      [("p", [("1", false)]), ("q", [("1", false)])] &&
    decide (h.CanWrite "r" ∧ ∀ file ∈ ["o/p.compare_versions.json", "o/q.compare_versions.json"],
      h.CanWrite file ∧ (h.entry? file).isNone = true)

theorem absolutePath_ne_versionsFile (h : Host) (dir name : String) :
    h.absolutePath "r" ≠ h.absolutePath (versionsFile dir name) := by
  intro hsame
  have hr : Path.IsName "r" := ⟨by decide, by decide, by decide, by decide⟩
  have hleads := h.leadsTo_absolutePath_of_leadsTo (Path.LeadsTo.refl "r") hr
  rw [hsame] at hleads
  have hname := hleads.unique (h.leadsTo_absolutePath dir (isName_packageFile name)) hr (isName_packageFile name)
  have hlength := congrArg (fun f => f.toList.length) hname
  rw [toList_packageFile, length_append] at hlength
  simp at hlength

theorem packageFiles_of_run_twoPackages :
    ∃ (g : Gathered) (between after : Host) (all : Shared) (p q : PackageProfile),
      twoPackages.gather.runOn twoPackagesHost = (.ok g, between) ∧ g.packages.keys = ["p", "q"] ∧
      twoPackages.run.runOn twoPackagesHost = (.ok (), after) ∧
      Holds all "o" after ("q", q) ∧ after.entry? (versionsFile "o" "p") = none ∧
      ¬Holds all "o" after ("p", p) := by
  have hlook : ((askLooking twoPackages twoPackagesKnown).runOn twoPackagesHost).1.toOption =
      some true := by decide +kernel
  obtain ⟨g, between, answers, asked, hgather, hask, hknown⟩ := exists_of_askLooking hlook
  simp only [twoPackagesKnown, Bool.and_eq_true, beq_iff_eq, decide_eq_true_eq] at hknown
  obtain ⟨hreports, hwrite, hfiles⟩ := hknown
  have hkeys : g.packages.keys = ["p", "q"] := by
    have := congrArg (List.map Prod.fst) hreports
    simpa [Table.keys, Function.comp_def] using this
  have hfound : ∀ r ∈ g.packages, ∀ v ∈ r.2, v.2.packages ≠ [] := by
    intro r hr v hv hnil
    have hmem := mem_map_of_mem (f := fun r => (r.1, r.2.map fun v => (v.1, v.2.packages.isEmpty))) hr
    have hreport : r.2.map (fun v => (v.1, v.2.packages.isEmpty)) = [("1", false)] := by
      rw [hreports, mem_pair] at hmem
      exact hmem.elim (congrArg Prod.snd) (congrArg Prod.snd)
    have hversion := mem_map_of_mem (f := fun v => (v.1, v.2.packages.isEmpty)) hv
    simp [hreport, hnil] at hversion
  have hfree : ∀ name ∈ g.packages.keys, asked.CanWrite (versionsFile "o" name) ∧
      asked.entry? (versionsFile "o" name) = none := by
    rw [hkeys]
    intro name hname
    have hfile : versionsFile "o" name ∈ ["o/p.compare_versions.json", "o/q.compare_versions.json"] := by
      rcases mem_pair.1 hname with rfl | rfl <;> decide
    exact ⟨(hfiles _ hfile).1, Option.isNone_iff_eq_none.1 (hfiles _ hfile).2⟩
  obtain ⟨hleaves, hends⟩ := packageFiles_of_run (c := twoPackages) rfl (by decide) hgather
  obtain ⟨after, hrun⟩ := hends answers asked "r" hask
    (by simp [(isGathered_of_gather hgather).files_eq_nil rfl]) hfound (fun name hname => (hfree name hname).1)
    rfl hwrite
  obtain ⟨shared, files, all, packages, asked', -, hwalk, hsame, -, hleft, -⟩ := hleaves after hrun
    (by rintro _ ⟨⟩ name -; exact absolutePath_ne_versionsFile after "o" name)
  obtain ⟨hask', -⟩ := exists_askPackages (isGathered_of_gather hgather).packages.versions_nodup hwalk
  obtain rfl : asked = asked' := congrArg Prod.snd (hask.symm.trans hask')
  rw [hkeys] at hsame
  obtain ⟨⟨_, p⟩, _, rfl, rfl, hrest⟩ := map_eq_cons_iff.1 hsame
  obtain ⟨⟨_, q⟩, rfl, rfl⟩ := map_eq_singleton_iff.1 hrest
  have hnone : after.entry? (versionsFile "o" "p") = none := by
    rw [hleft.other ("p", p) mem_cons_self (by simp), (hfree "p" (by simp [hkeys])).2]
  refine ⟨g, between, after, all, p, q, hgather, hkeys, hrun, hleft.last _ rfl, hnone, ?_⟩
  rw [Holds, hnone]
  simp

end Vetting.Survey.Comparison
