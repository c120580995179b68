import Vetting.Proofs.Document
import Vetting.Proofs.Path
import Vetting.Registry.Service

/-!
# What is remembered about dependencies

What a tool left is kept in two files, from which later questions are answered.
-/

namespace Vetting.Registry.Client

open List Job Maven.TreeLine Package Maven

def throughTool : List Kind := [.npmjs, .packagist, .maven]

/-- The look-up before every answer: the directory in which the answer is kept. -/
def lookUp (c : Client) (name : String) (version : Option String) : Job (Option String) := do
  let _ ← c.metadata name version
  c.infoDir name

/-- Runs the tool of a registry in a directory. -/
def resolve (c : Client) (name : String) (version : Option String) (temp : String) : Job Outcome :=
  match c.kind with
  | .npmjs => Npmjs.resolve name version temp
  | .packagist => Packagist.resolve name version temp
  | .maven => Maven.resolve (c.metadataFile name version) temp
  | _ => return .nothing

/-- What the client of a registry reads in what its tool left. -/
def found (k : Kind) (name : String) (o : Outcome) : Found :=
  match k with
  | .npmjs => Npmjs.found name o
  | .packagist => Packagist.found name o
  | .maven => Maven.found o
  | _ => {}

variable {c : Client} {dir name : String} {version : Option String} {flatten : Bool} {h : Host} {d : Doc}

theorem dependencies_eq (hkind : c.kind ∈ throughTool) (name : String) (version : Option String) (flatten : Bool) :
    c.dependencies name version flatten = (do
      let dir ← c.lookUp name version
      c.keptDeps dir name version flatten false fun temp =>
        found c.kind name <$> c.resolve name version temp) := by
  simp only [throughTool, mem_cons, not_mem_nil, or_false] at hkind
  rcases hkind with hkind | hkind | hkind
  all_goals
    simp only [dependencies, lookUp, metadata, resolve, hkind, bind_assoc, pure_bind]
    rfl

/-- The file that keeps what a package depends on, directly or at all. -/
def depPath (c : Client) (dir name : String) (version : Option String) (flatten : Bool) : String :=
  Path.join dir (c.depName name version flatten)

/-- What was found out is kept in both files. -/
def Keeps (c : Client) (dir name : String) (version : Option String) (f : Found) (h : Host) : Prop :=
  ∀ flatten, h.entry? (c.depPath dir name version flatten) = some (.file (.text (Doc.obj (f.deps flatten)).pretty))

theorem absolutePath_depPath_ne (hformat : c.depFormat = some "json") (h : Host) (dir name : String)
    (version : Option String) :
    h.absolutePath (c.depPath dir name version true) ≠ h.absolutePath (c.depPath dir name version false) := by
  have hfile : ∀ flatten, c.depName name version flatten = versioned (forFile name) version ++
        (if flatten then ".flatten_dep.json" else ".dep.json") := by
    intro flatten
    cases flatten <;> simp [depName, cacheFile, sudoMark, shown, hformat, String.append_assoc]
  intro heq
  obtain ⟨f, hf, hdeep⟩ := h.exists_leadsTo_absolutePath dir
    (versioned (forFile name) version) (s := ".flatten_dep.json") (by decide) (by decide)
  obtain ⟨g, hg, hdirect⟩ := h.exists_leadsTo_absolutePath dir
    (versioned (forFile name) version) (s := ".dep.json") (by decide) (by decide)
  rw [depPath, depPath, hfile, hfile, if_pos rfl, if_neg (by decide)] at heq
  rw [heq] at hdeep
  -- The ninth character from the end tells the names apart.
  have hlast := congrArg (fun s : String => s.toList.reverse[8]?) (hdeep.unique hdirect hf hg)
  simp at hlast

theorem keeps_of_runOn_keepDeps (hformat : c.depFormat = some "json") {f : Found} {h h' : Host}
    (hrun : (c.keepDeps (some dir) name version f).runOn h = (.ok (), h')) :
    c.Keeps dir name version f h' ∧ h'.absolutePath = h.absolutePath := by
  simp only [keepDeps, if_pos hformat] at hrun
  obtain ⟨⟨⟩, made, hmade, hrun⟩ := exists_of_runOn_bind hrun
  obtain ⟨⟨⟩, h₁, hdirect, hall⟩ := exists_of_runOn_bind hrun
  have hmadeStays := (along_ensureDirectory dir).stays.absolutePath_eq hmade
  have hdirectStays := (along_write _ _).stays.absolutePath_eq hdirect
  have hallStays := (along_write _ _).stays.absolutePath_eq hall
  refine ⟨fun flatten => ?_, by rw [hallStays, hdirectStays, hmadeStays]⟩
  cases flatten with
  | true => exact entry?_written hall
  | false =>
    -- The second file is another one than the first, which stays as it was written.
    rw [entry?_of_runOn_write hall, if_neg]
    · exact entry?_written hdirect
    · rintro ⟨-, heq⟩
      exact absolutePath_depPath_ne hformat h₁ dir name version heq.symm

/-- A kept document whose fields are texts is the answer, and nothing else is done. -/
theorem runOn_cachedDeps (hformat : c.depFormat = some "json") {t : Table String Doc}
    (htexts : ∀ p ∈ t, ∃ s, p.2 = .str s)
    (hkept : h.entry? (c.depPath dir name version flatten) = some (.file (.text (Doc.obj t).pretty))) :
    (c.cachedDeps (some dir) name version flatten).runOn h = (.ok (some (.obj (Table.ofPairs t))), h) := by
  have htext : Job.Content.text? (.text (Doc.obj t).pretty) = some (Doc.obj t).pretty := by
    rw [Job.Content.text?, Text.unifyLineEnds_eq_self (Doc.return_notMem_pretty htexts), String.ofList_toList]
  have hexists := runOn_exists? (c.depPath dir name version flatten) h
  rw [hkept] at hexists
  have hcached : (cached (c.depPath dir name version flatten)).runOn h =
      (.ok (some (.obj (Table.ofPairs t))), h) := by
    rw [cached, runOn_bind hexists]
    refine runOn_orElse ?_ _
    rw [runOn_bind (runOn_readDoc hkept htext (Doc.parse?_pretty htexts)), runOn_pure]
  simp only [cachedDeps, if_pos hformat]
  rw [← depPath, runOn_bind hexists]
  exact hcached

theorem runOn_cachedDeps_none (hnone : h.entry? (c.depPath dir name version flatten) = none) :
    (c.cachedDeps (some dir) name version flatten).runOn h = (.ok none, h) := by
  have hexists := runOn_exists? (c.depPath dir name version flatten) h
  rw [hnone] at hexists
  simp only [cachedDeps]
  rw [← depPath, runOn_bind hexists]
  rfl

theorem runOn_keptDeps {dir : Option String}
    (hcached : (c.cachedDeps dir name version flatten).runOn h = (.ok (some d), h)) (cacheOnly : Bool)
    (findOut : String → Job Found) :
    (c.keptDeps dir name version flatten cacheOnly findOut).runOn h = (.ok d, h) := by
  rw [keptDeps, runOn_bind hcached, runOn_pure]

theorem exists_of_runOn_keptDeps {dir : Option String} {findOut : String → Job Found} {h h' : Host}
    (hcached : (c.cachedDeps dir name version flatten).runOn h = (.ok none, h))
    (hrun : (c.keptDeps dir name version flatten false findOut).runOn h = (.ok d, h')) :
    ∃ temp started f finished kept, (temporaryDir "get_dep-").runOn h = (.ok temp, started) ∧
      (findOut temp).runOn started = (.ok f, finished) ∧
      (c.keepDeps dir name version f).runOn finished = (.ok (), kept) ∧
      (removeTree temp).runOn kept = (.ok (), h') ∧ d = .obj (f.deps flatten) := by
  rw [keptDeps, runOn_bind hcached] at hrun
  simp only [Bool.false_eq_true, if_false] at hrun
  obtain ⟨temp, started, htemp, hrun⟩ := exists_of_runOn_bind hrun
  obtain ⟨f, finished, hfound, hrun⟩ := exists_of_runOn_bind hrun
  obtain ⟨⟨⟩, kept, hkept, hrun⟩ := exists_of_runOn_bind hrun
  obtain ⟨⟨⟩, removed, hremoved, hrun⟩ := exists_of_runOn_bind hrun
  rw [runOn_pure] at hrun
  cases hrun
  exact ⟨temp, started, f, finished, kept, htemp, hfound, hkept, hremoved, rfl⟩

/-- The locked versions of all other packages, and what is locked for the package itself. -/
def locked (k : Kind) (name : String) (d : Doc) : Except Fault (Option (Table String Doc × Doc)) :=
  match k with
  | .npmjs => Npmjs.locked name d
  | .packagist => Packagist.locked name d
  | _ => .ok none

/-- The key under which a locked package says what it asks for. -/
def wantedKey : Kind → String
  | .packagist => "require"
  | _ => "requires"

/-- All could be read: a document lists the package, with a version for every other one and with what it asks
for, or every line of a tree is understood. -/
inductive Complete (k : Kind) (name : String) : Outcome → Prop where
  | lock {d own : Doc} {all direct : Table String Doc} (hlocked : locked k name d = .ok (some (all, own)))
      (hwanted : wantedOf (wantedKey k) all own = .ok direct) : Complete k name (.lock d)
  | tree {lines : List String} (hk : k = .maven)
      (hlines : ∀ l ∈ lines, ofText l ≠ .unclear) : Complete k name (.tree lines)

/-- What is found out where not all could be read. -/
inductive Lacking (k : Kind) (name : String) : Outcome → Found → Prop where
  | nothing (o : Outcome) : Lacking k name o {}
  /-- No direct dependency, for it cannot be told what the package asks for. -/
  | direct {d own : Doc} {all : Table String Doc} {f : Fault} (hlocked : locked k name d = .ok (some (all, own)))
      (hwanted : wantedOf (wantedKey k) all own = .error f) : Lacking k name (.lock d) { all }
  /-- What stands before the first line that is not understood. -/
  | before {lines rest : List String} {line : String} (hlines : ∀ l ∈ lines, ofText l ≠ .unclear)
      (hline : ofText line = .unclear) :
      Lacking k name (.tree (lines ++ line :: rest)) (readTree lines {})

variable {lines : List String} {k : Kind}

theorem readTree_append_unclear {line : String} (hlines : ∀ l ∈ lines, ofText l ≠ .unclear)
    (hline : ofText line = .unclear) (rest : List String) (f : Found) :
    readTree (lines ++ line :: rest) f = readTree lines f := by
  induction lines generalizing f with
  | nil => simp [readTree, hline]
  | cons l lines ih =>
    have hrest := ih fun m hm => hlines m (mem_cons_of_mem _ hm)
    have hl := hlines l mem_cons_self
    rw [cons_append, readTree, readTree]
    split <;> simp_all

theorem exists_first_unclear (hlines : ¬ ∀ l ∈ lines, ofText l ≠ .unclear) :
    ∃ before line rest, lines = before ++ line :: rest ∧
      (∀ l ∈ before, ofText l ≠ .unclear) ∧ ofText line = .unclear := by
  push Not at hlines
  obtain ⟨l, hl, hunclear⟩ := hlines
  obtain ⟨line, before, rest, hbefore, hline, rfl, -⟩ := exists_of_eraseP hl (p := fun l =>
    ofText l = .unclear) (by simpa using hunclear)
  exact ⟨before, line, rest, rfl, by simpa using hbefore, by simpa using hline⟩

theorem lacking_ofLocked (hcomplete : ¬ Complete k name (.lock d)) :
    Lacking k name (.lock d) (Found.ofLocked (wantedKey k) (locked k name d)) := by
  rcases hlocked : locked k name d with f | _ | ⟨all, own⟩
  · exact .nothing _
  · exact .nothing _
  · rcases hwanted : wantedOf (wantedKey k) all own with f | direct
    · simp only [Found.ofLocked, hwanted]
      exact .direct hlocked hwanted
    · exact absurd (.lock hlocked hwanted) hcomplete

theorem lacking_found (hk : k ∈ throughTool) {o : Outcome} (hcomplete : ¬ Complete k name o) :
    Lacking k name o (found k name o) := by
  simp only [throughTool, mem_cons, not_mem_nil, or_false] at hk
  cases o with
  | nothing => rcases hk with rfl | rfl | rfl <;> exact .nothing _
  | lock d =>
    rcases hk with rfl | rfl | rfl
    · exact lacking_ofLocked hcomplete
    · exact lacking_ofLocked hcomplete
    · exact .nothing _
  | tree lines =>
    rcases hk with rfl | rfl | rfl
    · exact .nothing _
    · exact .nothing _
    · obtain ⟨before, line, rest, rfl, hbefore, hline⟩ :=
        exists_first_unclear fun hlines => hcomplete (.tree rfl hlines)
      rw [found, Maven.found, readTree_append_unclear hbefore hline]
      exact .before hbefore hline

/-! ## Failures are remembered -/

/-- A question that is not answered from the cache is answered with what could be read in what the tool left, and
this is kept in both files. While a file stays, later questions are answered from it. -/
theorem dependencies_kept_for_every_outcome {c : Client} (hkind : c.kind ∈ throughTool)
    (hformat : c.depFormat = some "json") {name dir : String} {version : Option String}
    {flatten : Bool} {h looked after : Host} {d : Doc}
    (hlook : (c.lookUp name version).runOn h = (.ok (some dir), looked))
    (hunknown : (c.cachedDeps (some dir) name version flatten).runOn looked = (.ok none, looked))
    (hrun : (c.dependencies name version flatten).runOn h = (.ok d, after)) :
    ∃ temp started o finished, (Job.temporaryDir "get_dep-").runOn looked = (.ok temp, started) ∧
      (c.resolve name version temp).runOn started = (.ok o, finished) ∧
      d = .obj ((found c.kind name o).deps flatten) ∧
      (¬ Complete c.kind name o → Lacking c.kind name o (found c.kind name o)) ∧
      ((∀ all, ¬ finished.Within (c.depPath dir name version all) temp) →
        c.Keeps dir name version (found c.kind name o) after ∧
        ∀ all later ready, (∀ p ∈ (found c.kind name o).deps all, ∃ s, p.2 = .str s) →
          (c.lookUp name version).runOn later = (.ok (some dir), ready) →
          ready.entry? (c.depPath dir name version all) = after.entry? (c.depPath dir name version all) →
          (c.dependencies name version all).runOn later =
            (.ok (.obj (Table.ofPairs ((found c.kind name o).deps all))), ready)) := by
  rw [dependencies_eq hkind, Job.runOn_bind hlook] at hrun
  obtain ⟨temp, started, f, finished, kept, htemp, hfound, hkept, hremoved, rfl⟩ :=
    exists_of_runOn_keptDeps hunknown hrun
  rw [map_eq_pure_bind] at hfound
  obtain ⟨o, resolved, hresolve, hfound⟩ := Job.exists_of_runOn_bind hfound
  rw [Job.runOn_pure] at hfound
  cases hfound
  refine ⟨temp, started, o, finished, htemp, hresolve, rfl, lacking_found hkind, fun hapart => ?_⟩
  obtain ⟨hkeeps, hstay⟩ := keeps_of_runOn_keepDeps hformat hkept
  have hafter : c.Keeps dir name version (found c.kind name o) after := by
    intro all
    rw [Job.entry?_of_runOn_removeTree hremoved, hkeeps all]
    simpa only [Host.Within, hstay] using hapart all
  refine ⟨hafter, fun all later ready htexts hagain hsame => ?_⟩
  rw [dependencies_eq hkind, Job.runOn_bind hagain]
  exact runOn_keptDeps (runOn_cachedDeps hformat htexts (hsame.trans (hafter all))) _ _

/-- A client that keeps what it finds out in one directory. -/
def keepingClient : Client :=
  { kind := .npmjs, cacheDir := some "c", metadataFormat := some "json", depFormat := some "json" }

/-- A host whose tool locks two versions, but not in a readable form what the package asks for. -/
def brokenHost : Host where
  root := "/w"
  cwd := "/w"
  rules := [{ start := ["npm", "shrinkwrap"], files := [("npm-shrinkwrap.json", .text
    "\x7b\"dependencies\":\x7b\"a\":\x7b\"version\":\"1\",\"requires\":1\x7d,\"b\":\x7b\"version\":\"2\"\x7d\x7d\x7d")] }]

/-- The document that the tool leaves on this host. -/
def brokenLock : Doc :=
  .obj [("dependencies", .obj [
    ("a", .obj [("version", .str "1"), ("requires", .int 1)]), ("b", .obj [("version", .str "2")])])]

/-- The document of locked versions that a tool left. -/
def Outcome.lock? : Outcome → Option Doc
  | .lock d => some d
  | _ => none

/-- Whether the answer was kept before, what the tool left, and the paths. -/
def lookAtBroken : Job (Bool × Option Doc × List String) := do
  let _ ← keepingClient.lookUp "a" none
  let kept ← exists? (keepingClient.depPath "c" "a" none true)
  let temp ← temporaryDir "get_dep-"
  let o ← keepingClient.resolve "a" none temp
  let direct ← absolute (keepingClient.depPath "c" "a" none false)
  let all ← absolute (keepingClient.depPath "c" "a" none true)
  return (kept, o.lock?, [direct, all, ← absolute temp])

theorem dependencies_kept_for_broken_lock : ∃ looked after o,
      (keepingClient.lookUp "a" none).runOn brokenHost = (.ok (some "c"), looked) ∧
      (keepingClient.cachedDeps (some "c") "a" none true).runOn looked = (.ok none, looked) ∧
      (keepingClient.dependencies "a" none true).runOn brokenHost = (.ok (.obj [("b", .str "2")]), after) ∧
      ¬ Complete .npmjs "a" o ∧ Lacking .npmjs "a" o { all := [("b", .str "2")] } ∧
      keepingClient.Keeps "c" "a" none { all := [("b", .str "2")] } after ∧
      ∀ later ready, (keepingClient.lookUp "a" none).runOn later = (.ok (some "c"), ready) →
        ready.entry? (keepingClient.depPath "c" "a" none false) =
          after.entry? (keepingClient.depPath "c" "a" none false) →
        (keepingClient.dependencies "a" none).runOn later = (.ok (.obj []), ready) := by
  obtain ⟨looked, hlook⟩ : ∃ looked, (keepingClient.lookUp "a" none).runOn brokenHost =
      (.ok (some "c"), looked) := Job.exists_runOn (by decide +kernel)
  obtain ⟨after, hrun⟩ : ∃ after, (keepingClient.dependencies "a" none true).runOn brokenHost =
      (.ok (.obj [("b", .str "2")]), after) := Job.exists_runOn (by decide +kernel)
  obtain ⟨seen, hseen⟩ : ∃ h', lookAtBroken.runOn brokenHost = (.ok (false, some brokenLock,
      ["/w/c/a:latest.dep.json", "/w/c/a:latest.flatten_dep.json", "/w/tmp/get_dep-t0"]), h') :=
    Job.exists_runOn (by decide +kernel)
  rw [lookAtBroken, Job.runOn_bind hlook, Job.runOn_bind (Job.runOn_exists? _ looked)] at hseen
  obtain ⟨temp', started', htemp', hseen⟩ := Job.exists_of_runOn_bind hseen
  obtain ⟨o', finished', hresolve', hseen⟩ := Job.exists_of_runOn_bind hseen
  simp only [Job.runOn_bind (Job.runOn_absolute _ finished'), Job.runOn_pure, Prod.mk.injEq,
    Except.ok.injEq, List.cons.injEq, and_true] at hseen
  obtain ⟨⟨hnone, hlock, hdirect, hall, htemp⟩, -⟩ := hseen
  have hunknown : (keepingClient.cachedDeps (some "c") "a" none true).runOn looked = (.ok none, looked) :=
    runOn_cachedDeps_none (by simpa using hnone)
  obtain ⟨temp, started, o, finished, htemp₁, hresolve, hd, hlacking, hkept⟩ :=
    dependencies_kept_for_every_outcome (by simp [throughTool, keepingClient]) rfl hlook hunknown hrun
  obtain ⟨rfl, rfl⟩ : temp' = temp ∧ started' = started := by simpa [htemp₁] using htemp'.symm
  obtain ⟨rfl, rfl⟩ : o' = o ∧ finished' = finished := by simpa [hresolve] using hresolve'.symm
  obtain rfl : o' = .lock brokenLock := by
    cases o' <;> simp_all [Outcome.lock?]
  have hcomplete : ¬ Complete .npmjs "a" (.lock brokenLock) := by
    intro hcomplete
    cases hcomplete with
    | lock hlocked hwanted =>
      have hown : locked .npmjs "a" brokenLock = .ok (some ([("b", .str "2")],
        .obj [("version", .str "1"), ("requires", .int 1)])) := rfl
      cases hown.symm.trans hlocked
      cases hwanted
  obtain ⟨hkeeps, hagain⟩ := hkept fun all => by
    cases all <;> simp only [Host.Within, hdirect, hall, htemp] <;> decide
  refine ⟨looked, after, .lock brokenLock, hlook, hunknown, hrun, hcomplete, hlacking hcomplete, hkeeps,
    fun later ready hlater hsame => hagain false later ready ?_ hlater hsame⟩
  intro p hp
  cases hp

/-- A host whose tools leave nothing. -/
def bareHost : Host where
  root := "/w"
  cwd := "/w"

/-- Where the tools leave nothing, both files say that the package depends on nothing, and so does the second
answer. -/
theorem dependencies_kept_without_lock : ((do
      let d ← keepingClient.dependencies "a" none
      let direct ← Job.readText (keepingClient.depPath "c" "a" none false)
      let all ← Job.readText (keepingClient.depPath "c" "a" none true)
      let again ← keepingClient.dependencies "a" none
      return (d, direct, all, again, (← get).log.commands.map CommandRun.label)).runOn bareHost).1.toOption =
      some (.obj [], "\x7b\x7d", "\x7b\x7d", .obj [], ["npm view", "npm install", "npm shrinkwrap", "npm view"]) := by
  decide +kernel

end Vetting.Registry.Client
