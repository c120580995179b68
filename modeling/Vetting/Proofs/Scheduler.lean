import Vetting.Proofs.Detector.Containers
import Vetting.Proofs.Effects
import Vetting.Scheduler.Basic

/-!
# When everything starts anew

A cleanup stops the container service, and with it all that runs, if traces are not written any more, if there
are too many containers, or if it comes to a container that runs for too long and is dead or being removed
already. In the last case the containers after that one are left as they are.
-/

namespace Vetting.Scheduler

open List Job Detector

open Host (Notes)

/-! ## Containers that run for too long -/

section Containers

variable (now : Time.Stamp) (timeout : Int) (c : Container)

/-- For how long a container runs, in microseconds, if its start can be read. -/
def age : Except Fault Int := do now.sub (← Time.ofDoc (.str c.started))

def isOvertime : Bool := (age now c).toOption.any fun a => timeout * 1000000 < a

/-- Whether a container that runs for too long is removed. -/
def isRemovable : Bool := c.status = "running" || ["created", "exited", "restarting", "paused"].contains c.status

def isStuck : Bool := c.status = "removing" || c.status = "dead"

/-- Whether a cleanup goes on after a container. -/
def passes : Bool := (age now c).toOption.any fun a => a ≤ timeout * 1000000 || isRemovable c

/-- The calls by which a container is stopped, patiently if need be, and removed. -/
def disposal : List DockerCall :=
  let remove := DockerCall.remove c.name []
  let again := DockerCall.stop c.name [("timeout", .int 600)]
  if c.status = "running" then .stop c.name [] ::
    if c.bad.contains "stop" then [again] else if c.bad.contains "stop()" then [again, remove] else [remove]
  else if isRemovable c then [remove] else []

/-- Whether a container is gone once it was to be removed. -/
def removal : Except Fault Bool :=
  if isRemovable c then .ok true else if isStuck c then .ok false
  else .error (.failure ("Unexpected docker status " ++ c.status ++ ": " ++ c.name))

theorem runOn_stopPatiently (h : Host) :
    (stopPatiently c).runOn h = (if c.bad.contains "stop" then .error (.cause .runtime) else .ok (), noted h
      (.stop c.name [] :: if c.bad.contains "stop" || c.bad.contains "stop()"
        then [.stop c.name [("timeout", .int 600)]] else [])) := by
  have hfirst : (stopContainer c).runOn h = (if c.bad.contains "stop" || c.bad.contains "stop()"
      then .error (.cause .runtime) else .ok (), noted h [.stop c.name []]) := by
    rw [stopContainer, runOn_bind (runOn_noteDocker _ h)]
    simp only [isEmpty_nil, Bool.true_and]
    split <;> rfl
  rw [stopPatiently]
  by_cases hbad : (c.bad.contains "stop" || c.bad.contains "stop()") = true
  · rw [if_pos hbad] at hfirst ⊢
    rw [runOn_orElseOrdinary_error hfirst rfl, runOn_stopContainer, noted_noted, singleton_append]
  · rw [if_neg hbad] at hfirst ⊢
    rw [runOn_orElseOrdinary hfirst]
    simp_all

theorem runOn_orElse_nothing {j : Job Unit} {b : Bool} {h h' : Host}
    (hj : j.runOn h = (if b then .error (.cause .runtime) else .ok (), h')) :
    (j.orElseOrdinary fun _ => pure ()).runOn h = (.ok (), h') := by
  cases b with
  | true => exact runOn_orElseOrdinary_error hj rfl _
  | false => exact runOn_orElseOrdinary hj _

theorem runOn_removeContainer (h : Host) : (removeContainer c).runOn h = (removal c, noted h (disposal c)) := by
  rw [removeContainer, removal, disposal]
  by_cases hrunning : c.status = "running"
  · have hremovable : isRemovable c = true := by simp [isRemovable, hrunning]
    have hstop := runOn_stopPatiently c h
    simp only [hrunning, hremovable, if_true]
    by_cases hbad : c.bad.contains "stop" = true
    · simp only [hbad, if_true, Bool.true_or] at hstop ⊢
      rw [runOn_bind (runOn_orElse_nothing (b := true) (runOn_bind_error hstop _)), runOn_pure]
    · simp only [hbad, Bool.false_or, Bool.false_eq_true, if_false] at hstop ⊢
      have hremove := (runOn_bind hstop fun _ => Job.removeContainer c).trans (Detector.runOn_removeContainer c _)
      rw [runOn_bind (runOn_orElse_nothing hremove), runOn_pure, noted_noted]
      split_ifs <;> rfl
  · by_cases hother : ["created", "exited", "restarting", "paused"].contains c.status = true
    · have hremovable : isRemovable c = true := by rw [isRemovable, hother, Bool.or_true]
      simp only [hrunning, hother, hremovable, if_true, if_false]
      rw [runOn_bind (runOn_orElse_nothing (Detector.runOn_removeContainer c h)), runOn_pure]
    · have hremovable : isRemovable c = false := by simp_all [isRemovable]
      simp only [hrunning, hother, hremovable, Bool.false_eq_true, if_false, noted_nil]
      rw [show (c.status = "removing" || c.status = "dead") = isStuck c from rfl]
      split_ifs <;> rfl

/-- The calls by which containers are removed, up to the first one after which a cleanup does not go on. -/
def disposals (cs : List Container) : List DockerCall :=
  ((cs.takeWhile (passes now timeout)).filter (isOvertime now timeout)).flatMap disposal

/-- Whether the first container after which a cleanup does not go on runs for too long and is stuck. -/
def meetsStuck (cs : List Container) : Bool :=
  (cs.find? fun c => !passes now timeout c).any fun c => isOvertime now timeout c && isStuck c

theorem runOn_removeOvertime (cs : List Container) (h : Host) : ∃ r : Except Fault Bool,
    (removeOvertime now timeout cs).runOn h = (r, noted h (disposals now timeout cs)) ∧
      (r = .ok false ↔ meetsStuck now timeout cs = true) := by
  induction cs generalizing h with
  | nil => exact ⟨.ok true, congrArg _ (noted_nil h).symm, by simp [meetsStuck]⟩
  | cons c cs ih =>
    have hwalk : removeOvertime now timeout (c :: cs) = (do
        let a ← (age now c : Job Int)
        if a ≤ timeout * 1000000 then removeOvertime now timeout cs
        else if ← removeContainer c then removeOvertime now timeout cs else return false) := by
      rw [removeOvertime, age]
      cases Time.ofDoc (.str c.started) <;> rfl
    rw [hwalk]
    cases hpasses : passes now timeout c with
    | true =>
      have hmore : meetsStuck now timeout (c :: cs) = meetsStuck now timeout cs := by simp [meetsStuck, hpasses]
      rw [hmore, disposals, takeWhile_cons_of_pos hpasses]
      cases hage : age now c with
      | error f => simp [passes, hage, Except.toOption] at hpasses
      | ok a =>
        rw [runOn_bind (runOn_lift _ h)]
        simp only [passes, hage, Except.toOption, Option.any_some, Bool.or_eq_true, decide_eq_true_eq] at hpasses
        by_cases hyoung : a ≤ timeout * 1000000
        · have hover : ¬isOvertime now timeout c = true := by simp [isOvertime, hage, hyoung, Except.toOption]
          rw [if_pos hyoung, filter_cons_of_neg hover]
          exact ih h
        · have hover : isOvertime now timeout c = true := by simpa [isOvertime, hage, Except.toOption] using hyoung
          have hremove := runOn_removeContainer c h
          rw [removal, if_pos (hpasses.resolve_left hyoung)] at hremove
          rw [if_neg hyoung, runOn_bind hremove, if_pos rfl, filter_cons_of_pos hover, flatMap_cons, ← noted_noted]
          exact ih _
    | false =>
      -- the walk ends here, with an unreadable start or a container that is not removed
      have hfirst : meetsStuck now timeout (c :: cs) = (isOvertime now timeout c && isStuck c) := by
        simp [meetsStuck, hpasses]
      rw [hfirst, disposals, takeWhile_cons_of_neg (by simp [hpasses]), filter_nil, flatMap_nil, noted_nil]
      cases hage : age now c with
      | error f => exact ⟨_, runOn_bind_error (runOn_lift _ h) _, by simp [isOvertime, hage, Except.toOption]⟩
      | ok a =>
        simp only [passes, hage, Except.toOption, Option.any_some, Bool.or_eq_false_iff, decide_eq_false_iff_not] at hpasses
        have hover : isOvertime now timeout c = true := by simpa [isOvertime, hage, Except.toOption] using hpasses.1
        have hremove := runOn_removeContainer c h
        have hnone : disposal c = [] := by
          simp [disposal, hpasses.2, show c.status ≠ "running" by rintro heq; simp [isRemovable, heq] at hpasses]
        rw [removal, if_neg (by simp [hpasses.2]), hnone, noted_nil] at hremove
        rw [runOn_bind (runOn_lift _ h), if_neg hpasses.1, hover, Bool.true_and]
        cases hstuck : isStuck c with
        | true =>
          rw [if_pos hstuck] at hremove
          exact ⟨_, runOn_bind hremove _, iff_of_true rfl rfl⟩
        | false =>
          rw [if_neg (by simp [hstuck])] at hremove
          exact ⟨_, runOn_bind_error hremove _, by simp⟩

end Containers

variable (s : Scheduler) (processes timeout : Int) (watch : Bool) (most tooMany : Option Int)

/-! ## Stopping the container service -/

def isDockerStop (c : CommandRun) : Bool := c.words = .list (words ["service", "docker", "stop"])

/-- How often the container service was stopped. -/
def dockerStops (h : Host) : Nat := h.log.commands.countP isDockerStop

/-- The container service was not stopped or called. -/
abbrev Calm : Host → Host → Prop := Host.Same fun h => (dockerStops h, h.log.docker)

theorem dockerStops_of_notes {new : List CommandRun} {h h' : Host} (hn : Notes new h h') :
    dockerStops h' = dockerStops h + new.countP isDockerStop := by
  rw [dockerStops, hn.commands, countP_append, dockerStops]

theorem along_call {ws : List String} (hws : ws ≠ ["service", "docker", "stop"]) (cwd : Option String)
    (env : Option (Table String String)) : (call ws cwd env).Along Calm := by
  intro h
  have hnotes := notes_call ws cwd env h
  refine Prod.ext ((dockerStops_of_notes hnotes).trans ?_) hnotes.docker
  have hother : words ws ≠ words ["service", "docker", "stop"] :=
    fun heq => hws ((map_injective_iff.2 (Option.some_injective String)) heq)
  split_ifs <;> simp [isDockerStop, hother]

theorem along_awaitStart (n : Nat) : (awaitStart n).Along Calm := by
  induction n with
  | zero => exact along_pure _
  | succ n ih =>
    refine (ReadsOnly.along fun _ => rfl).bind fun watching => ?_
    split
    · exact Along.bind (fun _ => rfl) fun _ => ih
    · exact along_pure _

theorem along_ensureWatching : (s.ensureWatching watch).Along Calm := by
  refine (ReadsOnly.along fun _ => rfl).bind fun watching => ?_
  split
  · have hstart : s.startWatching.Along Calm := Along.orElseOrdinary
      ((along_call (by simp) _ none).bind fun _ => along_pure _) fun _ => along_pure _
    refine hstart.bind fun _ => (along_awaitStart _).bind fun _ => (ReadsOnly.along fun _ => rfl).bind fun _ => ?_
    split
    · exact ReadsOnly.along fun _ => rfl
    · exact along_pure _
  · exact along_pure _

theorem along_startWorkers : (s.startWorkers processes).Along Calm :=
  (ReadsOnly.along fun _ => rfl).bind fun _ => (along_call (by simp) _ none).bind fun _ => along_pure _

/-- A job that fails in one way at most, and neither runs commands nor calls the container service. -/
def IsQuiet (j : Job PUnit) : Prop :=
  ∀ h, ∃ (b : Bool) (h₁ : Host), j.runOn h = (if b then .error (.cause .runtime) else .ok ⟨⟩, h₁) ∧
    Host.Same (fun h => (h.log.commands, h.log.docker, h.commandCount)) h h₁

theorem isQuiet_kill (line : String) : IsQuiet (kill line) := by
  intro h
  rw [kill, noteCall, runOn_bind (runOn_note _ h)]
  split
  · exact ⟨true, _, rfl, rfl⟩
  · exact ⟨false, _, rfl, rfl⟩

theorem isQuiet_kills (lines : List String) : IsQuiet (forIn lines ⟨⟩ fun line _ => do
    kill line
    return .yield ⟨⟩) := by
  induction lines with
  | nil => exact fun h => ⟨false, h, rfl, rfl⟩
  | cons line lines ih =>
    intro h
    obtain ⟨b, h₁, hrun, hsame⟩ := isQuiet_kill line h
    rw [forIn_cons, bind_assoc]
    cases b with
    | true => exact ⟨true, h₁, runOn_bind_error hrun _, hsame⟩
    | false =>
      obtain ⟨b, h₂, hrest, hsame₂⟩ := ih h₁
      exact ⟨b, h₂, by rw [runOn_bind hrun, pure_bind, hrest], hsame₂.trans hsame⟩

theorem runOn_stopWorkers (h : Host) : ∃ h₁, stopWorkers.runOn h = (.ok (), h₁) ∧
    Host.Same (fun h => (h.log.commands, h.log.docker, h.commandCount)) h h₁ := by
  obtain ⟨b, h₁, hrun, hsame⟩ := isQuiet_kills (h.processes.filter isWorker) h
  refine ⟨h₁, runOn_orElse_nothing (b := b) ?_, hsame⟩
  rw [runOn_bind (runOn_get h)]
  cases b with
  | true => exact runOn_bind_error hrun _
  | false => exact runOn_bind hrun _

/-- Everything starts anew: the container service is stopped, unless too many commands were run before. -/
theorem runOn_restart (h : Host) :
    dockerStops ((s.restart processes watch).runOn h).2 = dockerStops h + (if h.commandCount < maxCommands then 1 else 0) ∧
      ((s.restart processes watch).runOn h).2.log.docker = h.log.docker := by
  obtain ⟨h₁, hrun, hsame⟩ := runOn_stopWorkers h
  simp only [Host.Same, Prod.mk.injEq] at hsame
  obtain ⟨hcommands, hdocker, hcount⟩ := hsame
  have hstop := notes_call ["service", "docker", "stop"] none none h₁
  rw [hcount] at hstop
  -- no command after the first one stops the service again
  have hafter : Calm ((call ["service", "docker", "stop"]).runOn h₁).2 ((s.restart processes watch).runOn h).2 := by
    have hsleep : (sleep 60).Along Calm := fun _ => rfl
    rw [restart, runOn_bind hrun]
    exact Along.after (fun _ => (along_call (by simp) none none).bind fun _ => (along_call (by simp) none none).bind
      fun _ => (along_call (by simp) none none).bind fun _ => hsleep.bind fun _ =>
      (along_ensureWatching s watch).bind fun _ => along_startWorkers s processes) _ h₁
  obtain ⟨hstops, hcalls⟩ := Prod.mk.inj hafter
  refine ⟨?_, by rw [hcalls, hstop.docker, hdocker]⟩
  rw [hstops, dockerStops_of_notes hstop, dockerStops, hcommands, dockerStops]
  split_ifs <;> rfl

/-! ## Cleaning up -/

section CleanUp

variable (h : Host)

/-- Whether packages are watched without anything at work on them. -/
def isStalled : Bool :=
  watch && (h.processes.any fun line => processName line == "sysdig") && !h.processes.any isWorker

/-- Whether there are enough containers to look at them. -/
def isFull : Bool := limitOr h.cpus most ≤ (h.containers.length : Int)

def isCrowded : Bool := limitOr (h.cpus * 3) tooMany ≤ (h.containers.length : Int)

def exceeds : Bool := !isStalled watch h && isFull most h && isCrowded tooMany h

def inspects : Bool := isStalled watch h || isFull most h && !isCrowded tooMany h

def moment : Time.Stamp := { micros := h.now.micros + h.elapsed, offset := some 0 }

end CleanUp

/-- The container service was stopped. -/
def Restarts (h h' : Host) : Prop := dockerStops h < dockerStops h'

theorem restarts_restart (h : Host) :
    Restarts h ((s.restart processes watch).runOn h).2 ↔ h.commandCount < maxCommands := by
  rw [Restarts, (runOn_restart s processes watch h).1]
  split_ifs <;> simp_all

/-- Looks at containers, and starts what is not at work. -/
def inspect (found : List Container) : Job Unit := do
  let now := { ← clock with offset := some 0 }
  if !(← removeOvertime now timeout found) then s.restart processes watch
  else if (watch && !(← isWatching)) || !(← isWorking) then s.start processes none 0 watch

theorem runOn_inspect (found : List Container) (h : Host) :
    (Restarts h ((inspect s processes timeout watch found).runOn h).2 ↔
      h.commandCount < maxCommands ∧ meetsStuck (moment h) timeout found = true) ∧
    ((inspect s processes timeout watch found).runOn h).2.log.docker =
      h.log.docker ++ disposals (moment h) timeout found := by
  have hclock : clock.runOn h = (.ok { h.now with micros := h.now.micros + h.elapsed }, h) := rfl
  obtain ⟨r, hwalk, hr⟩ := runOn_removeOvertime (moment h) timeout found h
  rw [inspect, runOn_bind hclock, ← hr]
  change (Restarts h (runOn (removeOvertime (moment h) timeout found >>= _) h).2 ↔ _) ∧
    (runOn (removeOvertime (moment h) timeout found >>= _) h).2.log.docker = _
  rcases r with f | _ | _
  · rw [runOn_bind_error hwalk]
    exact ⟨iff_of_false (lt_irrefl _) (by simp), rfl⟩
  · rw [runOn_bind hwalk, and_iff_left rfl]
    exact ⟨restarts_restart s processes watch (noted h _), (runOn_restart s processes watch (noted h _)).2⟩
  · have hcalm : (do if (watch && !(← isWatching)) || !(← isWorking) then s.start processes none 0 watch :
        Job Unit).Along Calm := by
      refine (ReadsOnly.along fun _ => rfl).bind fun watching => (ReadsOnly.along fun _ => rfl).bind fun working => ?_
      split
      · exact (along_ensureWatching s watch).bind fun _ => (along_startWorkers s processes).bind fun _ => along_pure _
      · exact along_pure _
    obtain ⟨hstops, hdocker⟩ := Prod.mk.inj (hcalm (noted h (disposals (moment h) timeout found)))
    rw [runOn_bind hwalk]
    exact ⟨iff_of_false hstops.not_gt (by simp), hdocker⟩

section Run

variable {h g : Host} (hsave : saveTraces.runOn h = (.ok true, g))

include hsave

theorem runOn_cleanUp (hlist : g.dockerFaults.get? "list" = none) :
    (s.cleanUp processes timeout watch most tooMany).runOn h =
      (if inspects watch most tooMany g then inspect s processes timeout watch g.containers
        else if exceeds watch most tooMany g then s.restart processes watch else pure ()).runOn
          (noted g [.list ownContainers]) := by
  have hless : decide ((g.containers.length : Int) < limitOr g.cpus most) = !isFull most g := by
    rw [isFull, ← decide_not, decide_eq_decide, not_le]
  rw [cleanUp, runOn_bind hsave]
  simp only [Bool.not_true, Bool.false_eq_true, if_false]
  rw [runOn_bind (runOn_get _), runOn_bind (runOn_containers ownContainers hlist)]
  change ((if (!isStalled watch g && decide ((g.containers.length : Int) < limitOr g.cpus most)) = true then pure ()
    else if (!isStalled watch g && isCrowded tooMany g) = true then s.restart processes watch
    else inspect s processes timeout watch g.containers : Job Unit)).runOn _ = _
  rw [hless, inspects, exceeds]
  cases isStalled watch g <;> cases isFull most g <;> cases isCrowded tooMany g <;> rfl

theorem runOn_cleanUp_fault {name : String} (hfault : g.dockerFaults.get? "list" = some name) :
    ∃ f, (s.cleanUp processes timeout watch most tooMany).runOn h =
      (.error f, noted g [.list ownContainers]) := by
  obtain ⟨f, hf⟩ := exists_runOn_containers ownContainers hfault
  refine ⟨f, ?_⟩
  rw [cleanUp, runOn_bind hsave]
  simp only [Bool.not_true, Bool.false_eq_true, if_false]
  rw [runOn_bind (runOn_get _), runOn_bind_error hf]

end Run

/-- A cleanup, once it has moved traces away, starts everything anew just if traces are not written any more, or
there are too many containers, or it meets one that runs for too long and is dead or being removed. The
containers that it stops and removes are those before that one. -/
theorem cleanUp_restarts_iff (h : Host) :
    let saved := (saveTraces.runOn h).1
    let g := (saveTraces.runOn h).2
    let after := ((s.cleanUp processes timeout watch most tooMany).runOn h).2
    (Restarts g after ↔ g.commandCount < maxCommands ∧ (saved = .ok false ∨
      saved = .ok true ∧ g.dockerFaults.get? "list" = none ∧ (exceeds watch most tooMany g = true ∨
        inspects watch most tooMany g = true ∧ meetsStuck (moment g) timeout g.containers = true))) ∧
    after.log.docker = g.log.docker ++ if saved.toOption = some true then .list ownContainers ::
      if g.dockerFaults.get? "list" = none ∧ inspects watch most tooMany g = true
      then disposals (moment g) timeout g.containers else [] else [] := by
  rcases hsave : saveTraces.runOn h with ⟨f | _ | _, g⟩
  · rw [cleanUp, runOn_bind_error hsave]
    exact ⟨iff_of_false (lt_irrefl _) (by simp), by simp [Except.toOption]⟩
  · rw [cleanUp, runOn_bind hsave]
    exact ⟨by simpa using restarts_restart s processes watch g,
      by simpa [Except.toOption] using (runOn_restart s processes watch g).2⟩
  · simp only [Except.ok.injEq, Bool.true_eq_false, false_or, true_and, Except.toOption, if_true]
    cases hlist : g.dockerFaults.get? "list" with
    | some name =>
      obtain ⟨f, hrun⟩ := runOn_cleanUp_fault s processes timeout watch most tooMany hsave hlist
      rw [hrun]
      exact ⟨iff_of_false (lt_irrefl _) (by simp), by simp [noted]⟩
    | none =>
      let g' := noted g [.list ownContainers]
      rw [runOn_cleanUp s processes timeout watch most tooMany hsave hlist]
      cases hinspects : inspects watch most tooMany g with
      | true =>
        have hexceeds : exceeds watch most tooMany g = false := by
          rw [inspects] at hinspects
          rw [exceeds]
          revert hinspects
          cases isStalled watch g <;> cases isFull most g <;> cases isCrowded tooMany g <;> decide
        obtain ⟨hinspect, hcalls⟩ := runOn_inspect s processes timeout watch g.containers g'
        simp only [hexceeds, Bool.false_eq_true, false_or, true_and, and_true, if_true]
        exact ⟨hinspect, hcalls.trans (append_assoc _ [_] _)⟩
      | false =>
        cases hexceeds : exceeds watch most tooMany g with
        | true =>
          simp only [Bool.false_eq_true, if_false, if_true, true_or, and_true, and_false]
          exact ⟨restarts_restart s processes watch g', (runOn_restart s processes watch g').2⟩
        | false => simp [noted, dockerStops, Restarts]

end Vetting.Scheduler
