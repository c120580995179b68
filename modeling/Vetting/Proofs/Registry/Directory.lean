import Vetting.Proofs.Package.Name
import Vetting.Proofs.Path
import Vetting.Registry.Client

/-!
# Directories of packages

Two dots stand for a character that the name of a directory cannot have. So a package whose whole name is such
a character gets the name of the directory above.
-/

namespace Vetting

open Path String

namespace Host

/-- The normal form of a path, seen from the working directory. -/
def place (h : Host) (p : String) : String := normal (join h.cwd p)

/-- Whether a path leads to something that is directly in a directory. -/
def DirectlyIn (h : Host) (p dir : String) : Prop :=
  parent (h.place p) = h.place dir ∧ h.place p ≠ h.place dir

/-- Whether something is at a path, or a directory can be made there. -/
def CanEnter (h : Host) (p : String) : Prop :=
  (h.entry? p).isSome = true ∨ h.Free (Job.ancestors (h.absolutePath p))

theorem place_join (h : Host) (dir : String) {f : String} (hf : '/' ∉ f.toList) :
    h.place (join dir f) = normal (join (join h.cwd dir) f) := by
  rw [place, join_join _ _ (isAbsolute_of_notMem hf)]

variable {h : Host} (hcwd : isAbsolute h.cwd = true)

include hcwd

variable (dir : String)

theorem place_join_dot : h.place (join dir ".") = h.place dir := by
  rw [place_join h dir (by decide), normal_join_dot (isAbsolute_join (.inl hcwd)), place]

theorem place_join_dots : h.place (join dir "..") = parent (h.place dir) := by
  rw [place_join h dir (by decide), normal_join_dots (isAbsolute_join (.inl hcwd)), place]

theorem directlyIn_join {f : String} (hf : Path.IsName f) : h.DirectlyIn (join dir f) dir := by
  have habs : isAbsolute (join h.cwd dir) = true := isAbsolute_join (.inl hcwd)
  rw [DirectlyIn, place_join h dir hf.notMem, place]
  exact ⟨parent_normal_join habs hf, normal_join_ne habs hf⟩

omit hcwd in
theorem not_directlyIn_of_parent {p dir : String} (hp : h.place p = parent (h.place dir)) : ¬ h.DirectlyIn p dir := by
  rintro ⟨hparent, hne⟩
  have hdown := Text.startsWith_iff.1 (startsWith_parent (h.place p))
  have hup := Text.startsWith_iff.1 (startsWith_parent (h.place dir))
  rw [hparent] at hdown
  rw [← hp] at hup
  exact hne (toList_injective (hup.eq_of_length (le_antisymm hup.length_le hdown.length_le)))

end Host

namespace Job

theorem runOn_ensureDirectory {p : String} {h : Host} (hne : p ≠ "") (hp : h.CanEnter p) :
    ∃ h', (ensureDirectory p).runOn h = (.ok (), h') := by
  rw [ensureDirectory, runOn_bind (runOn_exists? p h)]
  cases hat : h.entry? p with
  | some e => exact ⟨h, rfl⟩
  | none =>
    have hfree : h.Free (ancestors (h.absolutePath p)) := by
      rcases hp with hp | hp
      · rw [hat] at hp
        cases hp
      · exact hp
    have habsent : entryAt h (h.absolutePath p) = none := by
      rwa [Host.entry?, if_neg (by simpa using hne)] at hat
    obtain ⟨h', hrun, -, -⟩ := runOn_makeDirectories hne habsent hfree false
    exact ⟨h', hrun⟩

end Job

namespace Package

/-! ## Names that name directories -/

variable {cs : List Char} {name : String}

theorem dotInvalid_eq_nil_iff : dotInvalid cs = [] ↔ cs = [] := by
  cases cs with
  | nil => simp [dotInvalid]
  | cons c cs =>
    rw [dotInvalid_cons]
    split <;> simp

theorem dotInvalid_eq_dot_iff : dotInvalid cs = ['.'] ↔ cs = ['.'] := by
  cases cs with
  | nil => simp [dotInvalid]
  | cons c cs =>
    cases hc : isNameChar c with
    | true => simp [dotInvalid_cons, hc, dotInvalid_eq_nil_iff]
    | false =>
      have hdot : c ≠ '.' := by
        rintro rfl
        exact absurd hc (by decide)
      simp [dotInvalid_cons, hc, hdot]

theorem dotInvalid_eq_dots_iff :
    dotInvalid cs = ['.', '.'] ↔ cs = ['.', '.'] ∨ ∃ c, cs = [c] ∧ isNameChar c = false := by
  cases cs with
  | nil => simp [dotInvalid]
  | cons c cs =>
    cases hc : isNameChar c with
    | true => simp [dotInvalid_cons, hc, dotInvalid_eq_dot_iff]
    | false =>
      have hdot : c ≠ '.' := by
        rintro rfl
        exact absurd hc (by decide)
      simp [dotInvalid_cons, hc, hdot, dotInvalid_eq_nil_iff]

/-- Two dots, and every single character that a name cannot have. -/
def LeadsUp (name : String) : Prop :=
  name = ".." ∨ ∃ c, name = singleton c ∧ isNameChar c = false

theorem forFile_eq_iff {name s : String} : forFile name = s ↔ dotInvalid name.toList = s.toList := by
  rw [← toList_inj, forFile, toList_ofList, fileName_eq_dotInvalid]

theorem forFile_eq_dot_iff : forFile name = "." ↔ name = "." := by
  rw [forFile_eq_iff, ← toList_inj]
  exact dotInvalid_eq_dot_iff

theorem forFile_eq_dots_iff : forFile name = ".." ↔ LeadsUp name := by
  have hsingle : ∀ c, name.toList = [c] ↔ name = singleton c := by
    intro c
    rw [← toList_inj, toList_singleton]
  rw [forFile_eq_iff, LeadsUp, ← toList_inj]
  simp only [← hsingle]
  exact dotInvalid_eq_dots_iff

theorem forFile_ne_empty (hne : name ≠ "") : forFile name ≠ "" := by
  rw [Ne, forFile_eq_iff]
  exact fun h => hne (by simpa using dotInvalid_eq_nil_iff.1 h)

theorem isName_forFile (hne : name ≠ "") (hdot : name ≠ ".") (hup : ¬ LeadsUp name) : Path.IsName (forFile name) where
  notMem := slash_notMem_forFile name
  ne_empty := forFile_ne_empty hne
  ne_dot := forFile_eq_dot_iff.not.2 hdot
  ne_dots := forFile_eq_dots_iff.not.2 hup

end Package

namespace Registry.Client

open Package (LeadsUp forFile)

/-- A package has its directory directly in that of all, unless its name is a dot or leads up. -/
theorem directlyIn_directoryFor_iff {h : Host} {name cacheDir : String}
    (hcwd : Path.isAbsolute h.cwd = true) (hname : name ≠ "")
    (hfree : h.CanEnter (Path.join cacheDir (forFile name))) :
    ∃ p h', (directoryFor name cacheDir).runOn h = (.ok p, h') ∧
      (h.DirectlyIn p cacheDir ↔ name ≠ "." ∧ ¬ LeadsUp name) ∧
      (name = "." → h.place p = h.place cacheDir) ∧
      (LeadsUp name → h.place p = Path.parent (h.place cacheDir)) := by
  have hpath : Path.join cacheDir (forFile name) ≠ "" := by
    rw [Path.join_of_relative _ (Path.isAbsolute_of_notMem (Package.slash_notMem_forFile name))]
    exact fun h => Package.forFile_ne_empty hname (String.append_eq_empty_iff.1 h).2
  obtain ⟨h', hmade⟩ := Job.runOn_ensureDirectory hpath hfree
  have hdot : name = "." → h.place (Path.join cacheDir (forFile name)) = h.place cacheDir := by
    intro heq
    rw [Package.forFile_eq_dot_iff.2 heq, Host.place_join_dot hcwd]
  have hup : LeadsUp name → h.place (Path.join cacheDir (forFile name)) = Path.parent (h.place cacheDir) := by
    intro hup
    rw [Package.forFile_eq_dots_iff.2 hup, Host.place_join_dots hcwd]
  refine ⟨_, h', by rw [directoryFor, Job.runOn_bind hmade, Job.runOn_pure], ⟨fun hin => ⟨?_, ?_⟩, ?_⟩, hdot, hup⟩
  · exact fun heq => hin.2 (hdot heq)
  · exact fun heq => Host.not_directlyIn_of_parent (hup heq) hin
  · exact fun hne => Host.directlyIn_join hcwd cacheDir (Package.isName_forFile hname hne.1 hne.2)

def cacheHost : Host := { root := "/r", cwd := "/r/w", files := [("/r/w", .directory), ("/r/w/cache", .directory)] }

theorem directoryFor_tilde : Path.isAbsolute cacheHost.cwd = true ∧ "~" ≠ "" ∧
      cacheHost.CanEnter (Path.join "cache" (forFile "~")) ∧
      ∃ p h', (directoryFor "~" "cache").runOn cacheHost = (.ok p, h') ∧
        ¬ cacheHost.DirectlyIn p "cache" ∧ cacheHost.place p = "/r/w" := by
  have hcwd : Path.isAbsolute cacheHost.cwd = true := by decide +kernel
  have hname : "~" ≠ "" := by decide
  have henter : cacheHost.CanEnter (Path.join "cache" (forFile "~")) := .inl (by decide +kernel)
  have hup : LeadsUp "~" := .inr ⟨'~', rfl, by decide⟩
  have hparent : Path.parent (cacheHost.place "cache") = "/r/w" := by decide +kernel
  obtain ⟨p, h', hrun, hin, -, hplace⟩ := directlyIn_directoryFor_iff hcwd hname henter
  exact ⟨hcwd, hname, henter, p, h', hrun, fun h => (hin.1 h).2 hup, (hplace hup).trans hparent⟩

end Registry.Client

end Vetting
