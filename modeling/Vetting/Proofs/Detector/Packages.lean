import Vetting.Detector
import Vetting.Proofs.Host
import Vetting.Proofs.Table

/-!
# Analyses of the packages of a list

One flag for the whole list says whether rows have a version.
-/

namespace Vetting

open List Sheet

theorem Job.runOn_mapM {α β : Type} {g : α → Job β} {r : α → β} {h : Host} {xs : List α}
    (hg : ∀ a ∈ xs, (g a).runOn h = (.ok (r a), h)) : (xs.mapM g).runOn h = (.ok (xs.map r), h) := by
  induction xs with
  | nil => rfl
  | cons a xs ih =>
    rw [forall_mem_cons] at hg
    rw [mapM_cons, runOn_bind hg.1, runOn_bind (ih hg.2), runOn_pure, map_cons]

namespace Detector

open Job
open Command (Mode)

def cellOf (r : Sheet.Line) (column : String) : Option String := (r.cells.get? column).getD none

/-- The package in a row: its name, its language, and its version unless that is empty. -/
def subjectIn (r : Sheet.Line) : Subject :=
  { name := cellOf r "package name", language := cellOf r "language"
    version := (cellOf r "version").filter fun v => !v.isEmpty }

def IsPackageList (s : Sheet) : Prop :=
  ∃ columns, s.header = some columns ∧ ∀ k ∈ ["package name", "version", "language"], k ∈ columns

/-- The names that are done, by a file that need not be there. -/
inductive SaysDone (h : Host) : Option String → List String → Prop where
  | nothing {skip : Option String} (hskip : ∀ p ∈ skip, p.isEmpty = false → h.entry? p = none) : SaysDone h skip []
  | file {p t : String} {c : Content} (hp : p.isEmpty = false) (hc : h.entry? p = some (.file c))
    (ht : Job.Content.text? c = some t) : SaysDone h (some p) (namesDone t)

/-- The packages that are reached: up to the first one without a version if one is expected. -/
def reached (versions : Bool) (ps : List Subject) : List Subject :=
  if versions then ps.takeWhile fun p => p.version.isSome else ps

theorem isSome_get?_ofCells {columns : List String} {k : String} (hk : k ∈ columns) (cells : List String) :
    ((Sheet.Line.ofCells columns cells).cells.get? k).isSome = true := by
  rw [Table.isSome_get?, Sheet.Line.ofCells, Table.keys_ofPairs, mem_distinct]
  induction columns generalizing cells with
  | nil => cases hk
  | cons column columns ih =>
    rcases cells with _ | ⟨cell, cells⟩
    · simpa using hk
    · rcases mem_cons.1 hk with rfl | hk
      · exact mem_cons_self
      · exact mem_cons_of_mem _ (ih hk cells)

theorem subjectOf_eq {text : String} (hs : IsPackageList (ofText text)) {r : Sheet.Line}
    (hr : r ∈ (ofText text).rows) : subjectOf r.cells = .ok (subjectIn r) := by
  obtain ⟨columns, hcolumns, hin⟩ := hs
  have hcell : ∀ k ∈ ["package name", "version", "language"], r.cells.get? k = some (cellOf r k) := by
    intro k hk
    rw [ofText] at hr hcolumns
    split at hcolumns
    · cases hcolumns
    case h_2 header rest hlines =>
      obtain rfl := Option.some.inj hcolumns
      simp only [hlines] at hr
      obtain ⟨cells, -, rfl⟩ := mem_map.1 hr
      obtain ⟨v, hv⟩ := Option.isSome_iff_exists.1 (isSome_get?_ofCells (hin k hk) cells)
      rw [cellOf, hv, Option.getD_some]
  rw [subjectOf]
  simp only [hcell _ mem_cons_self, hcell "version" (by simp), hcell "language" (by simp)]
  rfl

/-- Analyses packages one after the other, as far as they are reached. -/
def analyses (work : Subject → Job Unit) (versions : Bool) (ps : List Subject) : Job Unit := do
  (reached versions ps).forM work
  if reached versions ps ≠ ps then fault .badValue

theorem for_eq_analyses (ps : Packages) (work : Subject → Job Unit) (qs : List Subject) :
    (forIn qs PUnit.unit fun p _ => do
      ps.check p
      work p
      pure (.yield PUnit.unit)) = analyses work ps.withVersion qs := by
  induction qs with
  | nil => simp [analyses, reached]
  | cons p qs ih =>
    rw [forIn_cons, Packages.check, analyses]
    cases hp : ps.withVersion && p.version.isNone with
    | true =>
      rw [Bool.and_eq_true, Option.isNone_iff_eq_none] at hp
      simp only [reached, hp, Option.isSome_none, Bool.false_eq_true, not_false_eq_true, takeWhile_cons_of_neg, if_true]
      rfl
    | false =>
      have hmore : reached ps.withVersion (p :: qs) = p :: reached ps.withVersion qs := by
        rw [Bool.and_eq_false_iff, Option.isNone_eq_false_iff] at hp
        rcases hp with hp | hp
        · simp only [reached, hp, Bool.false_eq_true, if_false]
        · simp only [reached, takeWhile_cons, hp, if_true]
          exact (apply_ite (cons p) ..).symm
      have hall : (p :: reached ps.withVersion qs).forM work = work p >>= fun _ => (reached ps.withVersion qs).forM work :=
        rfl
      simp only [Bool.false_eq_true, if_false, bind_assoc, pure_bind, ih, analyses, hmore, hall, ne_eq, cons.injEq,
        true_and]

theorem packageMode_eq {s : Settings} {m : Mode} (hmode : s.mode = m.label) (hm : m ≠ .crawlWebsite) :
    packageMode s = pure m := by
  rw [packageMode, hmode]
  cases m with
  | crawlWebsite => exact absurd rfl hm
  | _ => rfl

theorem exists_work (s : Settings) {m : Mode} (hm : m ≠ .crawlWebsite) (beside : Bool) :
    ∃ work : Subject → Job Unit, ∀ p, inspect? s m p beside = some (work p) := by
  cases m with
  | crawlWebsite => exact absurd rfl hm
  | _ => exact ⟨_, fun p => rfl⟩

theorem runPackages_of_read {s : Settings} (hqueue : s.isQueued = false) {m : Mode} (hmode : s.mode = m.label)
    (hm : m ≠ .crawlWebsite) {beside : Bool} {work : Subject → Job Unit}
    (hwork : ∀ p, inspect? s m p beside = some (work p)) {h : Host} {file : String} {skip : Option String}
    {ps : Packages} (hfile : (h.entry? file).isSome = true) (hread : (readPackages file skip).runOn h = (.ok ps, h)) :
    (runPackages s file skip beside).runOn h = if ps.subjects = [] then (.error (.exit (.number 1)), h)
      else (analyses work ps.withVersion ps.subjects).runOn h := by
  rw [runPackages, runOn_bind (runOn_exists? file h)]
  simp only [hfile, Bool.not_true, Bool.false_eq_true, if_false]
  rw [runOn_bind hread]
  simp only [List.isEmpty_iff, hqueue, Bool.false_eq_true, if_false, packageMode_eq hmode hm, pure_bind, hwork,
    for_eq_analyses, bind_pure_unit]
  split
  · rfl
  · rfl

section Run

variable {h : Host} {file text : String} {c : Content} (hc : h.entry? file = some (.file c))
  (htext : Job.Content.text? c = some text) (hs : IsPackageList (Sheet.ofText text)) {skip : Option String}
  {done : List String} (hdone : SaysDone h skip done)

include hc htext hs hdone

theorem runOn_readPackages : (readPackages file skip).runOn h =
    (.ok { subjects := ((ofText text).rows.map subjectIn).filter fun p => !p.name.any done.contains
           withVersion := ((ofText text).rows.map subjectIn).any fun p => p.version.isSome }, h) := by
  have hsubjects : runOn ((ofText text).rows.mapM fun r => (do subjectOf r.cells : Job Subject)) h =
      (.ok ((ofText text).rows.map subjectIn), h) :=
    runOn_mapM fun r hr => congrArg (·, h) (subjectOf_eq hs hr)
  rw [readPackages, readSheet, bind_assoc, runOn_bind (runOn_readText hc htext), pure_bind, runOn_bind hsubjects]
  cases hdone with
  | nothing hskip =>
    have hnone : (fun p : Subject => !p.name.any [].contains) = fun _ => true := by
      funext p
      cases p.name <;> rfl
    rw [hnone, filter_true]
    cases hp : skip.filter fun f => !f.isEmpty with
    | none => rfl
    | some p =>
      obtain ⟨rfl, hp⟩ := Option.filter_eq_some_iff.1 hp
      have hno : (exists? p).runOn h = (.ok false, h) := by
        rw [runOn_exists?, hskip p rfl (by simpa using hp)]
        rfl
      rw [runOn_bind hno]
      rfl
  | @file p t c hp hc ht =>
    have hthere : (exists? p).runOn h = (.ok true, h) := by
      rw [runOn_exists?, hc]
      rfl
    simp only [Option.filter_some, hp, Bool.not_false, if_true]
    rw [runOn_bind hthere, Bool.not_true, if_neg Bool.false_ne_true, runOn_bind (runOn_readText hc ht), runOn_pure]

/-- A list of packages is run through without a queue. The rows that are not done are analysed one after the
other, each once and as it says, if no row of the list has a version or if all rows that are not done have
one. If neither is so, this goes on up to the first one without a version, where the run stops. -/
theorem runPackages_runOn {s : Settings} (hqueue : s.isQueued = false) {m : Mode} (hmode : s.mode = m.label)
    (hm : m ≠ .crawlWebsite) (beside : Bool) :
    let all := (ofText text).rows.map subjectIn
    let left := all.filter fun p => !p.name.any done.contains
    let versions := all.any fun p => p.version.isSome
    (left = [] → (runPackages s file skip beside).runOn h = (.error (.exit (.number 1)), h)) ∧
    (∃ work : Subject → Job Unit, (∀ p, inspect? s m p beside = some (work p)) ∧
      (left ≠ [] → (runPackages s file skip beside).runOn h = (analyses work versions left).runOn h)) ∧
    (reached versions left = left ↔ (∀ p ∈ all, p.version = none) ∨ ∀ p ∈ left, p.version ≠ none) := by
  intro all left versions
  have hread := runOn_readPackages hc htext hs hdone
  obtain ⟨work, hwork⟩ := exists_work s hm beside
  have hrun := runPackages_of_read hqueue hmode hm hwork (by rw [hc]; rfl) hread
  refine ⟨fun hleft => hrun.trans (if_pos hleft), ⟨work, hwork, fun hleft => hrun.trans (if_neg hleft)⟩, ?_⟩
  rw [reached]
  cases hv : versions with
  | false =>
    have hnone : ∀ p ∈ all, p.version = none := by simpa [versions] using hv
    exact iff_of_true rfl (.inl hnone)
  | true =>
    obtain ⟨p, hp, hsome⟩ := any_eq_true.1 hv
    have hnot : ¬∀ p ∈ all, p.version = none := fun hall => by simp [hall p hp] at hsome
    rw [if_pos rfl, takeWhile_eq_self_iff, or_iff_right hnot]
    simp only [Option.isSome_iff_ne_none]

end Run

/-- A list of two packages with a version and one without. -/
def someListed : String := "package name,version,language\na,1,python\nb,,python\nc,2,php\n"

/-- The package without a version is done, so the two others are analysed. -/
theorem runPackages_runOn_two :
    let h : Host := { root := "/w", cwd := "/w", files :=
      [("/w/in", .file (.text someListed)), ("/w/skip", .file (.text "b:done\n"))] }
    let s : Settings := { mode := "Metadata" }
    ∃ work : Subject → Job Unit, (∀ p, inspect? s .metadata p false = some (work p)) ∧
      (runPackages s "in" (some "skip") false).runOn h = (analyses work true
        [⟨some "a", some "python", some "1"⟩, ⟨some "c", some "php", some "2"⟩]).runOn h := by
  intro h s
  have hin : h.entry? "in" = some (.file (.text someListed)) := by decide +kernel
  have hlist : Job.Content.text? (.text someListed) = some someListed := by decide +kernel
  have hcolumns : IsPackageList (ofText someListed) :=
    ⟨["package name", "version", "language"], by decide +kernel, by simp⟩
  have hskip : h.entry? "skip" = some (.file (.text "b:done\n")) := by decide +kernel
  have hdone : SaysDone h (some "skip") (namesDone "b:done\n") := .file rfl hskip (by decide +kernel)
  obtain ⟨-, ⟨work, hwork, hrun⟩, -⟩ :=
    runPackages_runOn hin hlist hcolumns hdone (s := s) rfl (m := .metadata) rfl (by decide) false
  have hleft : ((ofText someListed).rows.map subjectIn).filter (fun p => !p.name.any (namesDone "b:done\n").contains)
    = [⟨some "a", some "python", some "1"⟩, ⟨some "c", some "php", some "2"⟩] := by decide +kernel
  have hversions : ((ofText someListed).rows.map subjectIn).any (fun p => p.version.isSome) = true := by
    decide +kernel
  rw [hleft, hversions] at hrun
  exact ⟨work, hwork, hrun (by simp)⟩

end Detector

end Vetting
