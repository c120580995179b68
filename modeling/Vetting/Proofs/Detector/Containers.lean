import Vetting.Detector
import Vetting.Proofs.Host
import Vetting.Proofs.Package.Name

/-!
# Which containers are stopped

The container service finds a text anywhere in a name, so containers of other packages are stopped as well.
-/

namespace Vetting.Detector

open List Job

open Package (IsPart shown)

def Subject.containerName (p : Subject) : Except Fault (List Char) :=
  p.name.elim (.ok "None".toList) fun n => Package.containerName n.toList

variable (n : List Char) (v : String) (c : Container) (options : List (String × Doc))

/-- The start of the names of the containers of a package, from its name and version. -/
def startOf : List Char :=
  n ++ ("..".toList ++ (v.toList ++ "..".toList))

theorem ofList_startOf : String.ofList n ++ ".." ++ v ++ ".." = String.ofList (startOf n v) := by
  apply String.toList_injective
  simp [startOf]

theorem containerStart_eq (p : Subject) :
    p.containerStart = p.containerName.map fun n => String.ofList (startOf n (shown p.version)) := by
  rw [Subject.containerStart, Subject.containerName]
  cases p.name with
  | none => exact congrArg Except.ok (ofList_startOf "None".toList _)
  | some n =>
    simp only [Package.containerPrefix, ofList_startOf]
    rfl

theorem exists_of_container {q : Subject} {job name : String} (h : q.container job = .ok name) :
    ∃ m, q.containerName = .ok m ∧ name.toList = startOf m (shown q.version) ++ job.toList := by
  rw [Subject.container, containerStart_eq] at h
  cases hm : q.containerName with
  | error f =>
    rw [hm] at h
    cases h
  | ok m =>
    rw [hm] at h
    obtain rfl := Except.ok.inj h
    exact ⟨m, rfl, by simp⟩

/-- A version is not empty, and no dot of it can be taken for one of the separators around it. -/
def IsPlain : Prop := IsPart v ∧ v ≠ "" ∧ Text.endsWith v "." = false

instance (v : String) : Decidable (IsPlain v) := inferInstanceAs (Decidable (_ ∧ _))

theorem separator_of_append {as bs cs : List Char} (h : as ++ ("..".toList ++ bs) = "..".toList ++ cs) :
    "..".toList <+: as ++ "..".toList := by
  refine prefix_of_prefix_length_le (prefix_append _ cs) ?_ (by simp)
  rw [← h, ← append_assoc]
  exact prefix_append _ bs

theorem not_suffix_dot {xs : List Char} {w : String} (hw : IsPlain w) : ¬ ['.'] <:+ xs ++ w.toList := by
  obtain ⟨-, hne, hend⟩ := hw
  have hnil : w.toList ≠ [] := fun h => hne (String.toList_injective h)
  intro hdot
  have hlen : ['.'].length ≤ w.toList.length := length_pos_of_ne_nil hnil
  have hw : ".".toList <:+ w.toList :=
    suffix_of_suffix_length_le hdot (suffix_append xs w.toList) hlen
  rw [Text.endsWith_iff.2 hw] at hend
  cases hend

theorem prefix_of_separator {m xs ys : List Char} {w job : String} (hw : IsPlain w) (hjob : IsPart job)
    (h : xs ++ ("..".toList ++ ys) = startOf m w ++ job.toList) :
    xs = m ++ ("..".toList ++ w.toList) ∨ xs <+: m := by
  have hsplit : (m ++ ("..".toList ++ w.toList)) ++ ("..".toList ++ job.toList) = xs ++ ("..".toList ++ ys) := by
    rw [h, startOf]
    simp only [append_assoc]
  obtain ⟨t, ht⟩ := Package.prefix_of_last_separator hjob hsplit
  rcases t with _ | ⟨c, _ | ⟨d, t⟩⟩
  · exact .inl (by simpa using ht)
  · -- the version would end with the first dot of a separator
    rw [← ht, append_assoc] at hsplit
    obtain rfl : c = '.' := (List.cons.inj (append_cancel_left hsplit)).1
    refine absurd ?_ (@not_suffix_dot (m ++ "..".toList) w hw)
    rw [append_assoc, ← ht]
    exact suffix_append xs ['.']
  · rw [← ht, append_assoc] at hsplit
    obtain ⟨rfl, hrest⟩ := List.cons.inj (append_cancel_left hsplit)
    obtain rfl : d = '.' := (List.cons.inj hrest).1
    exact .inr (Package.prefix_of_last_separator hw.1 ht.symm)

theorem startOf_infix_iff {n m : List Char} {v w job : String} (hv : IsPart v) (hw : IsPlain w) (hjob : IsPart job) :
    startOf n v <:+: startOf m w ++ job.toList ↔ (v = w ∧ n <:+ m) ∨ startOf n v <:+: m ++ "..".toList := by
  constructor
  · rintro ⟨xs, ys, h⟩
    have hsplit : (xs ++ (n ++ ("..".toList ++ v.toList))) ++ ("..".toList ++ ys) = startOf m w ++ job.toList := by
      rw [← h, startOf]
      simp only [append_assoc]
    obtain heq | ⟨t, rfl⟩ := prefix_of_separator hw hjob hsplit
    · rw [← append_assoc] at heq
      obtain ⟨rfl, rfl⟩ := Package.last_separator_inj hv hw.1 heq
      exact .inl ⟨rfl, suffix_append xs n⟩
    · right
      have hrest : t ++ ("..".toList ++ (w.toList ++ ("..".toList ++ job.toList))) = "..".toList ++ ys := by
        rw [startOf] at hsplit
        simp only [append_assoc] at hsplit
        simpa only [append_cancel_left_eq, append_assoc] using hsplit.symm
      obtain ⟨zs, hzs⟩ := separator_of_append hrest
      refine ⟨xs, zs, ?_⟩
      rw [append_assoc _ t, ← hzs, startOf]
      simp only [append_assoc]
  · rintro (⟨rfl, xs, rfl⟩ | h)
    · refine ⟨xs, job.toList, ?_⟩
      simp only [startOf, append_assoc]
    · refine h.trans (List.IsPrefix.isInfix ⟨w.toList ++ ("..".toList ++ job.toList), ?_⟩)
      simp only [startOf, append_assoc]

/-! ## Calls to the container service -/

def ends? : DockerCall → Option String
  | .stop name _ | .remove name _ => some name
  | .list _ | .run _ _ => none

/-- Whether a job asks for the end of a container of a name. -/
def Hits (j : Job Unit) (h : Host) (name : String) : Prop :=
  ∃ call ∈ (j.runOn h).2.log.docker.drop h.log.docker.length, ends? call = some name

/-- The host after some more calls to the container service. -/
def noted (h : Host) (calls : List DockerCall) : Host :=
  { h with log := { h.log with docker := h.log.docker ++ calls } }

@[simp] theorem noted_noted (h : Host) (as bs : List DockerCall) : noted (noted h as) bs = noted h (as ++ bs) := by
  simp [noted]

@[simp] theorem noted_nil (h : Host) : noted h [] = h := by
  simp [noted]

theorem runOn_noteDocker (c : DockerCall) (h : Host) : (noteDocker c).runOn h = (.ok (), noted h [c]) := rfl

theorem runOn_stopContainer (seconds : Int) (h : Host) : (stopContainer c [("timeout", .int seconds)]).runOn h =
      (if c.bad.contains "stop" then .error (.cause .runtime) else .ok (),
        noted h [.stop c.name [("timeout", .int seconds)]]) := by
  rw [stopContainer, runOn_bind (runOn_noteDocker _ h)]
  by_cases hbad : c.bad.contains "stop" = true
  · simp only [hbad, Bool.true_or, if_true]
    rfl
  · simp only [hbad, isEmpty_cons, Bool.false_and, Bool.or_false]
    rfl

theorem runOn_removeContainer (h : Host) : (removeContainer c).runOn h =
      (if c.bad.contains "remove" then .error (.cause .runtime) else .ok (), noted h [.remove c.name []]) := by
  rw [removeContainer, runOn_bind (runOn_noteDocker _ h)]
  split <;> rfl

/-- The calls by which a container is stopped and, if it stops, removed. -/
def stopCalls (s : Settings) (c : Container) : List DockerCall :=
  .stop c.name [("timeout", .int s.dockerTimeout)] ::
    if c.bad.contains "stop" then [] else [.remove c.name []]

theorem runOn_stopAndRemove (s : Settings) (c : Container) (h : Host) : (orElseOrdinary (do
      stopContainer c [("timeout", .int s.dockerTimeout)]
      removeContainer c) fun _ => pure ()).runOn h = (.ok (), noted h (stopCalls s c)) := by
  have hstop := runOn_stopContainer c s.dockerTimeout h
  rw [stopCalls]
  by_cases hbad : c.bad.contains "stop" = true
  · rw [if_pos hbad] at hstop ⊢
    exact runOn_orElseOrdinary_error (runOn_bind_error hstop _) rfl _
  · rw [if_neg hbad] at hstop ⊢
    have hremove := runOn_removeContainer c (noted h [.stop c.name [("timeout", .int s.dockerTimeout)]])
    rw [← runOn_bind hstop fun _ => removeContainer c, noted_noted] at hremove
    by_cases hkept : c.bad.contains "remove" = true
    · rw [if_pos hkept] at hremove
      exact runOn_orElseOrdinary_error hremove rfl _
    · rw [if_neg hkept] at hremove
      exact runOn_orElseOrdinary hremove _

theorem runOn_containers {h : Host} (hok : h.dockerFaults.get? "list" = none) :
    (containers options).runOn h = (.ok h.containers, noted h [.list options]) := by
  have hname : (noted h [.list options]).dockerFaults.get? "list" = none := hok
  rw [containers, runOn_bind (runOn_noteDocker _ h), dockerFault, bind_assoc, runOn_bind (runOn_get _)]
  simp only [hname]
  rfl

theorem exists_runOn_containers {h : Host} {name : String} (hfault : h.dockerFaults.get? "list" = some name) :
    ∃ f, (containers options).runOn h = (.error f, noted h [.list options]) := by
  have hname : (noted h [.list options]).dockerFaults.get? "list" = some name := hfault
  rw [containers, runOn_bind (runOn_noteDocker _ h), dockerFault, bind_assoc, runOn_bind (runOn_get _)]
  simp only [hname, raiseAs]
  split_ifs <;> exact ⟨_, rfl⟩

/-! ## Stopping the containers of a package -/

def request (start : String) : DockerCall := .list [("filters", .obj [("name", .str start)])]

theorem runOn_stopContainers_error (s : Settings) {p : Subject} {f : Fault}
    (hstart : p.containerStart = .error f) (h : Host) : (stopContainers s p).runOn h = (.error f, h) := by
  rw [stopContainers, hstart]
  exact runOn_bind_error (runOn_lift _ h) _

section Start

variable (s : Settings) {p : Subject} {start : String} (hstart : p.containerStart = .ok start) {h : Host}

include hstart

theorem runOn_stopContainers_fault {name : String} (hfault : h.dockerFaults.get? "list" = some name) :
    ((stopContainers s p).runOn h).2 = noted h [request start] := by
  obtain ⟨f, hf⟩ := exists_runOn_containers [("filters", .obj [("name", .str start)])] hfault
  rw [stopContainers, hstart, runOn_bind (runOn_lift _ h), runOn_bind_error hf, request]

theorem runOn_stopContainers (hok : h.dockerFaults.get? "list" = none) : (stopContainers s p).runOn h =
      (.ok (), noted h (request start :: h.containers.flatMap (stopCalls s))) := by
  -- after each round the log holds the calls for the containers so far
  have hstep : ∀ before, ∀ c ∈ h.containers, ∀ h', h' = noted h (request start :: before.flatMap (stopCalls s)) →
      ∃ h'', (orElseOrdinary (do
        stopContainer c [("timeout", .int s.dockerTimeout)]
        removeContainer c) fun _ => pure ()).runOn h' = (.ok (), h'') ∧
        h'' = noted h (request start :: (before ++ [c]).flatMap (stopCalls s)) := by
    intro before c _ h' hinv
    refine ⟨_, runOn_stopAndRemove s c h', ?_⟩
    rw [hinv, noted_noted, flatMap_append, flatMap_singleton, cons_append]
  obtain ⟨h', hloop, rfl⟩ := runOn_for_invariant
    (fun before h' => h' = noted h (request start :: before.flatMap (stopCalls s))) hstep rfl
  rw [stopContainers, hstart, runOn_bind (runOn_lift _ h), runOn_bind (runOn_containers _ hok)]
  exact runOn_bind hloop _

end Start

/-- A host gives the containers whose names contain the start of a package's containers. -/
def Finds (h : Host) (all : List Container) (p : Subject) : Prop :=
  ∀ start, p.containerStart = .ok start → h.containers = all.filter fun c => Text.contains c.name start

theorem hits_iff_of_noted {j : Job Unit} {h : Host} {calls : List DockerCall}
    (hj : (j.runOn h).2 = noted h calls) (name : String) :
    Hits j h name ↔ ∃ call ∈ calls, ends? call = some name := by
  rw [Hits, hj, noted, drop_left]

theorem exists_ends_stopCalls (s : Settings) (cs : List Container) (name : String) :
    (∃ call ∈ cs.flatMap (stopCalls s), ends? call = some name) ↔ ∃ c ∈ cs, c.name = name := by
  constructor
  · rintro ⟨call, hcall, hname⟩
    obtain ⟨c, hc, hmem⟩ := mem_flatMap.1 hcall
    refine ⟨c, hc, ?_⟩
    rw [stopCalls] at hmem
    split_ifs at hmem <;> simp only [mem_cons, not_mem_nil, or_false] at hmem
    · subst hmem
      exact Option.some.inj hname
    · rcases hmem with rfl | rfl
      · exact Option.some.inj hname
      · exact Option.some.inj hname
  · rintro ⟨c, hc, rfl⟩
    exact ⟨_, mem_flatMap.2 ⟨c, hc, mem_cons_self⟩, rfl⟩

theorem hits_iff_infix (s : Settings) {p : Subject} {all : List Container} {h : Host}
    (hfinds : Finds h all p) {name : String} (hname : ∃ c ∈ all, c.name = name) :
    Hits (stopContainers s p) h name ↔ h.dockerFaults.get? "list" = none ∧
      ∃ start, p.containerStart = .ok start ∧ start.toList <:+: name.toList := by
  cases hstart : p.containerStart with
  | error f =>
    have hrun : ((stopContainers s p).runOn h).2 = noted h [] := by
      rw [runOn_stopContainers_error s hstart, noted_nil]
    simp [hits_iff_of_noted hrun]
  | ok start =>
    cases hlist : h.dockerFaults.get? "list" with
    | some fault => simp [hits_iff_of_noted (runOn_stopContainers_fault s hstart hlist), request, ends?]
    | none =>
      have hrun := congrArg Prod.snd (runOn_stopContainers s hstart hlist)
      rw [hits_iff_of_noted hrun, hfinds start hstart, exists_mem_cons_iff, exists_ends_stopCalls]
      simp only [request, ends?, mem_filter, Text.contains_eq_true_iff, Except.ok.injEq,
        exists_eq_left', true_and, reduceCtorEq, false_or]
      constructor
      · rintro ⟨c, ⟨-, hc⟩, rfl⟩
        exact hc
      · intro hinfix
        obtain ⟨c, hc, rfl⟩ := hname
        exact ⟨c, ⟨hc, hinfix⟩, rfl⟩

/-- Another package's container is stopped just if the start of the package's containers occurs in its name. If no
separator cuts its version and job, that is so if the versions are the same and the other package's name ends
with the package's, or if name and version of the package are part of the other name. -/
theorem stopContainers_hits_iff (s : Settings) {p q : Subject} {job name : String} {all : List Container}
    {h : Host} (hfinds : Finds h all p) (hname : q.container job = .ok name)
    (hmem : ∃ c ∈ all, c.name = name) :
    (Hits (stopContainers s p) h name ↔ h.dockerFaults.get? "list" = none ∧
      ∃ start, p.containerStart = .ok start ∧ start.toList <:+: name.toList) ∧
    (IsPart (shown p.version) → IsPlain (shown q.version) → IsPart job →
      (Hits (stopContainers s p) h name ↔ h.dockerFaults.get? "list" = none ∧
        ∃ n m, p.containerName = .ok n ∧ q.containerName = .ok m ∧ ((shown p.version = shown q.version ∧ n <:+ m) ∨
            startOf n (shown p.version) <:+: m ++ "..".toList))) := by
  have hhits := hits_iff_infix s hfinds hmem
  refine ⟨hhits, fun hp hq hjob => hhits.trans (and_congr_right fun _ => ?_)⟩
  obtain ⟨m, hm, htext⟩ := exists_of_container hname
  rw [containerStart_eq, hm, htext]
  cases p.containerName with
  | error f => simp [Except.map]
  | ok n => simpa [Except.map] using startOf_infix_iff hp hq hjob

/-- Stopping the work on `foo` stops that on `xfoo`. -/
theorem stopContainers_hits_longer_name :
    let p : Subject := { name := some "foo", language := some "python", version := some "1.0" }
    let q : Subject := { name := some "xfoo", language := some "python", version := some "1.0" }
    let h : Host := { root := "/", cwd := "/", containers := [{ name := "xfoo..1.0..d" }] }
    p.containerStart ≠ q.containerStart ∧ q.container "d" = .ok "xfoo..1.0..d" ∧
      Hits (stopContainers { mode := "Dynamic" } p) h "xfoo..1.0..d" := by
  intro p q h
  have hp : p.containerStart = .ok "foo..1.0.." := by decide +kernel
  have hq : q.containerStart = .ok "xfoo..1.0.." := by decide +kernel
  have hname : q.container "d" = .ok "xfoo..1.0..d" := by
    rw [Subject.container, hq]
    rfl
  have hfinds : Finds h h.containers p := by
    intro start hstart
    obtain rfl := Except.ok.inj (hp.symm.trans hstart)
    decide +kernel
  refine ⟨by rw [hp, hq]; decide, hname, ?_⟩
  rw [(stopContainers_hits_iff _ hfinds hname ⟨_, mem_singleton.2 rfl, rfl⟩).1]
  exact ⟨rfl, _, hp, ⟨['x'], ['d'], by decide⟩⟩

end Vetting.Detector
