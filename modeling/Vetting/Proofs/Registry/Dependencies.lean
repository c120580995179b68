import Vetting.Proofs.Graph.Closure
import Vetting.Registry.Client

/-!
# All that a package depends on

The search gives the transitive closure of what the packages say they depend on, in one version for each name.
-/

namespace Vetting

open Table

namespace Registry.Client

open Vetting.Graph

variable {deps : String × Option String → Deps} {start : String × Option String}

/-- The packages of a search by name, without the one it started from. -/
theorem get?_ofPairs_filter_ne (asked : List (String × Option String)) (start : String × Option String) (n : String) :
    (((ofPairs (asked.filter fun p => p != start)).get? n).isSome = true ↔
      ∃ v, (n, v) ∈ asked ∧ (n, v) ≠ start) ∧
    ∀ v, (ofPairs (asked.filter fun p => p != start)).get? n = some v → (n, v) ∈ asked ∧ (n, v) ≠ start := by
  have hmem : ∀ p, p ∈ asked.filter (fun p => p != start) ↔ p ∈ asked ∧ p ≠ start := by
    intro p
    simp [List.mem_filter]
  constructor
  · rw [isSome_get?, keys_ofPairs, mem_distinct, List.mem_map]
    constructor
    · rintro ⟨⟨n, v⟩, hp, rfl⟩
      exact ⟨v, (hmem _).1 hp⟩
    · rintro ⟨v, hv⟩
      exact ⟨(n, v), (hmem _).2 hv, rfl⟩
  · intro v hv
    exact (hmem _).1 (mem_of_get?_ofPairs hv)

variable {asked : List (String × Option String)}

theorem get?_ofPairs_filter (hasked : ∀ p, p ∈ asked ↔ Reachable deps start p) (n : String) :
    (((ofPairs (asked.filter fun p => p != start)).get? n).isSome = true ↔
      ∃ v, Reachable deps start (n, v) ∧ (n, v) ≠ start) ∧
    ∀ v, (ofPairs (asked.filter fun p => p != start)).get? n = some v →
      Reachable deps start (n, v) ∧ (n, v) ≠ start := by
  simpa only [hasked] using get?_ofPairs_filter_ne asked start n

/-- What a search that comes to its end gives. -/
theorem runOn_allDeps {next : String → Option String → Job Deps} {name : String} {version : Option String}
    {h h' : Host} (hrun : Job.RunsTo (closureStep fun p => next p.1 p.2) ([], [(name, version)]) h asked h') :
    (allDeps next name version).runOn h = (.ok (ofPairs (asked.filter fun p => p != (name, version))), h') := by
  rw [allDeps, Graph.closure, Job.runOn_bind hrun.runOn_repeatM, Job.runOn_pure]

/-- Where finitely many packages can be reached, the search ends. It asks about each of them once and does nothing
else, and it finds the names of those other than the package itself, each in a version that can be reached. -/
theorem allDeps_of_finite (next : String → Option String → Job Deps)
    (deps : String × Option String → Deps) (name : String) (version : Option String)
    (hnext : Answers (fun p => next p.1 p.2) deps (name, version))
    (hfin : {p | Reachable deps (name, version) p}.Finite) (h : Host) :
    ∃ (asked : List (String × Option String)) (all : Deps) (h' : Host),
      Job.RunsTo (closureStep fun p => next p.1 p.2) ([], [(name, version)]) h asked h' ∧
      (allDeps next name version).runOn h = (.ok all, h') ∧
      (askEach (fun p => next p.1 p.2) asked).runOn h = (.ok (), h') ∧
      asked.Nodup ∧ (∀ p, p ∈ asked ↔ Reachable deps (name, version) p) ∧
      all.keys.Nodup ∧
      ∀ n, ((all.get? n).isSome = true ↔ ∃ v, Reachable deps (name, version) (n, v) ∧ (n, v) ≠ (name, version)) ∧
        ∀ v, all.get? n = some v → Reachable deps (name, version) (n, v) ∧ (n, v) ≠ (name, version) := by
  obtain ⟨asked, h', hrun, heach, hnodup, hasked⟩ := runsTo_closure hnext hfin h
  refine ⟨asked, _, h', hrun, runOn_allDeps hrun, heach, hnodup, hasked, ?_, get?_ofPairs_filter hasked⟩
  rw [Table.keys_ofPairs]
  exact nodup_distinct _

/-- Packages that depend on each other in a circle, one of them in two versions. -/
def circleDeps : String × Option String → Deps
  | ("a", none) => [("b", some "1"), ("c", some "1")]
  | ("b", some "1") => [("d", some "1")]
  | ("c", some "1") => [("d", some "2"), ("b", some "1")]
  | ("d", some "1") => [("a", none)]
  | ("d", some "2") => [("a", some "3")]
  | _ => []

def circle : List (String × Option String) :=
  [("a", none), ("b", some "1"), ("c", some "1"), ("d", some "1"), ("d", some "2"), ("a", some "3")]

theorem mem_circle {p : String × Option String} (hp : Reachable circleDeps ("a", none) p) : p ∈ circle := by
  have hclosed : ∀ p ∈ circle, ∀ q ∈ circleDeps p, q ∈ circle := by decide
  exact hp.mem_of_closed hclosed List.mem_cons_self

theorem finite_circleDeps : {p | Reachable circleDeps ("a", none) p}.Finite :=
  circle.finite_toSet.subset fun _ => mem_circle

/-- Says what a package of the circle depends on, and prints its name. -/
def askCircle (name : String) (version : Option String) : Job Deps := do
  Job.print name
  return circleDeps (name, version)

theorem answers_askCircle : Answers (fun p => askCircle p.1 p.2) circleDeps ("a", none) :=
  fun _ _ _ => rfl

theorem allDeps_askCircle : Answers (fun p => askCircle p.1 p.2) circleDeps ("a", none) ∧
    {p | Reachable circleDeps ("a", none) p}.Finite ∧
    ∃ (asked : List (String × Option String)) (all : Deps) (h' : Host),
      Job.RunsTo (closureStep fun p => askCircle p.1 p.2) ([], [("a", none)]) default asked h' ∧
      (allDeps askCircle "a" none).runOn default = (.ok all, h') ∧
      (askEach (fun p => askCircle p.1 p.2) asked).runOn default = (.ok (), h') ∧
      asked.Nodup ∧ (∀ p, p ∈ asked ↔ Reachable circleDeps ("a", none) p) ∧
      all.keys.Nodup ∧
      ∀ n, ((all.get? n).isSome = true ↔ ∃ v, Reachable circleDeps ("a", none) (n, v) ∧ (n, v) ≠ ("a", none)) ∧
        ∀ v, all.get? n = some v → Reachable circleDeps ("a", none) (n, v) ∧ (n, v) ≠ ("a", none) := by
  exact ⟨answers_askCircle, finite_circleDeps,
    allDeps_of_finite askCircle circleDeps "a" none answers_askCircle finite_circleDeps default⟩

/-- Whatever the packages answer, a search that ends has found the package that it started from under its own name
exactly if it asked about it in another version. So where the answers are always the same, and finitely many
packages can be reached, it finds the package exactly if this can be reached in another version. -/
theorem allDeps_finds_start_iff (next : String → Option String → Job Deps) (name : String) (version : Option String) :
    (∀ (asked : List (String × Option String)) (h h' : Host),
      Job.RunsTo (closureStep fun p => next p.1 p.2) ([], [(name, version)]) h asked h' →
      ∃ all, (allDeps next name version).runOn h = (.ok all, h') ∧
        ((all.get? name).isSome = true ↔ ∃ v ≠ version, (name, v) ∈ asked) ∧
        ∀ v, all.get? name = some v → v ≠ version ∧ (name, v) ∈ asked) ∧
    ∀ deps, Answers (fun p => next p.1 p.2) deps (name, version) →
      {p | Reachable deps (name, version) p}.Finite → ∀ h, ∃ all h',
        (allDeps next name version).runOn h = (.ok all, h') ∧
        ((all.get? name).isSome = true ↔ ∃ v ≠ version, Reachable deps (name, version) (name, v)) ∧
        ∀ v, all.get? name = some v → v ≠ version ∧ Reachable deps (name, version) (name, v) := by
  have hends : ∀ (asked : List (String × Option String)) (h h' : Host),
      Job.RunsTo (closureStep fun p => next p.1 p.2) ([], [(name, version)]) h asked h' →
      ∃ all, (allDeps next name version).runOn h = (.ok all, h') ∧
        ((all.get? name).isSome = true ↔ ∃ v ≠ version, (name, v) ∈ asked) ∧
        ∀ v, all.get? name = some v → v ≠ version ∧ (name, v) ∈ asked := by
    intro asked h h' hrun
    have hfound := get?_ofPairs_filter_ne asked (name, version) name
    have hother : ∀ v, (name, v) ≠ (name, version) ↔ v ≠ version := by simp
    simp only [hother, and_comm (b := _ ≠ version)] at hfound
    exact ⟨_, runOn_allDeps hrun, hfound⟩
  refine ⟨hends, fun deps hnext hfin h => ?_⟩
  obtain ⟨asked, h', hrun, -, -, hasked⟩ := runsTo_closure hnext hfin h
  obtain ⟨all, hall, hfound⟩ := hends asked h h' hrun
  simp only [hasked] at hfound
  exact ⟨all, h', hall, hfound⟩

/-- The circle comes back to its beginning in another version. -/
theorem allDeps_finds_start_of_circle : Answers (fun p => askCircle p.1 p.2) circleDeps ("a", none) ∧
    {p | Reachable circleDeps ("a", none) p}.Finite ∧
    (∃ asked h', Job.RunsTo (closureStep fun p => askCircle p.1 p.2) ([], [("a", none)]) default asked h' ∧
      ∃ all, (allDeps askCircle "a" none).runOn default = (.ok all, h') ∧
        (all.get? "a").isSome = true ∧ ("a", some "3") ∈ asked) ∧
    ∃ all h', (allDeps askCircle "a" none).runOn default = (.ok all, h') ∧ all.get? "a" = some (some "3") := by
  have hreach : Reachable circleDeps ("a", none) ("a", some "3") := by
    have hc : Reachable circleDeps ("a", none) ("c", some "1") := .step (.refl _) (by decide)
    have hd : Reachable circleDeps ("a", none) ("d", some "2") := .step hc (by decide)
    exact .step hd (by decide)
  obtain ⟨hends, hfixed⟩ := allDeps_finds_start_iff askCircle "a" none
  refine ⟨answers_askCircle, finite_circleDeps, ?_, ?_⟩
  · obtain ⟨asked, h', hrun, -, -, hasked⟩ := runsTo_closure answers_askCircle finite_circleDeps default
    obtain ⟨all, hall, hiff, -⟩ := hends asked default h' hrun
    have hmem := (hasked _).2 hreach
    exact ⟨asked, h', hrun, all, hall, hiff.2 ⟨some "3", by simp, hmem⟩, hmem⟩
  · obtain ⟨all, h', hall, hiff, hvalue⟩ :=
      hfixed circleDeps answers_askCircle finite_circleDeps default
    refine ⟨all, h', hall, ?_⟩
    obtain ⟨v, hv⟩ := Option.isSome_iff_exists.1 (hiff.2 ⟨some "3", by simp, hreach⟩)
    obtain ⟨hne, hv'⟩ := hvalue v hv
    have hcircle : v = none ∨ v = some "3" := by simpa [circle] using mem_circle hv'
    rw [hv, hcircle.resolve_left hne]

end Registry.Client

end Vetting
