import Vetting.Proofs.Host

/-!
# What jobs leave as it is

How the host after a job is related to the host before it follows from how that is for the steps of the
job. Reading and writing files changes nothing but files, and no directory goes away. A command is noted
once, unless too many were run before; apart from that, it changes files as well.
-/

namespace Vetting

open List

namespace Job

variable {α β : Type} {R S : Host → Host → Prop} {j : Job α}

/-- Whatever a job gives, the hosts before and after it are related. -/
def Along (R : Host → Host → Prop) (j : Job α) : Prop := ∀ h, R h (j.runOn h).2

theorem Along.related (hj : j.Along R) {r : Except Fault α} {h h' : Host} (hrun : j.runOn h = (r, h')) : R h h' := by
  simpa only [hrun] using hj h

theorem Along.mono (hj : j.Along R) (hRS : ∀ h h', R h h' → S h h') : j.Along S := fun h => hRS h _ (hj h)

variable [Std.Refl R]

theorem ReadsOnly.along (hj : j.ReadsOnly) : j.Along R := fun h => by
  rw [hj h]
  exact refl_of R h

/-- What comes after a job goes on from the host after it, unless the job fails. -/
theorem Along.after {k : α → Job β} (hk : ∀ a, (k a).Along R) (j : Job α) (h : Host) :
    R (j.runOn h).2 ((j >>= k).runOn h).2 := by
  rcases hrun : j.runOn h with ⟨f | a, h₁⟩
  · rw [runOn_bind_error hrun]
    exact refl_of R h₁
  · rw [runOn_bind hrun]
    exact hk a h₁

theorem Along.bind [IsTrans Host R] {k : α → Job β} (hj : j.Along R) (hk : ∀ a, (k a).Along R) :
    (j >>= k).Along R :=
  fun h => trans_of R (hj h) (Along.after hk j h)

theorem Along.orElseOrdinary [IsTrans Host R] {other : Fault → Job α} (hj : j.Along R)
    (hother : ∀ f, (other f).Along R) : (j.orElseOrdinary other).Along R := by
  refine fun h => trans_of R (hj h) ?_
  rcases hrun : j.runOn h with ⟨f | a, h₁⟩
  · by_cases hf : f.isOrdinary = true
    · rw [runOn_orElseOrdinary_error hrun hf]
      exact hother f h₁
    · have hstop := runOn_orElse_error hrun fun f => if f.isOrdinary then other f else throw f
      rw [if_neg hf] at hstop
      exact hstop ▸ refl_of R h₁
  · rw [runOn_orElseOrdinary hrun]
    exact refl_of R h₁

theorem along_pure (a : α) : (pure a : Job α).Along R := (readsOnly_pure a).along

theorem along_fault (c : Cause) : (fault c : Job α).Along R := (readsOnly_fault c).along

theorem Along.forIn [IsTrans Host R] {xs : List α} {f : α → β → Job (ForInStep β)} (hf : ∀ a b, (f a b).Along R)
    (b : β) : (forIn xs b f).Along R := by
  induction xs generalizing b with
  | nil => exact along_pure b
  | cons x xs ih =>
    rw [forIn_cons]
    refine (hf x b).bind fun r => ?_
    cases r with
    | done b => exact along_pure b
    | yield b => exact ih b

end Job

namespace Host

def Same {γ : Type} (view : Host → γ) (h h' : Host) : Prop := view h' = view h

instance {γ : Type} (view : Host → γ) : Std.Refl (Same view) := ⟨fun _ => rfl⟩

instance {γ : Type} (view : Host → γ) : IsTrans Host (Same view) := ⟨fun _ _ _ ha hb => Eq.trans hb ha⟩

end Host

/-! ## Files -/

open Job (entryAt)

namespace Host

/-- Nothing but files changed, and what was a directory is one. -/
structure Changes (h h' : Host) : Prop where
  only : h.OnlyFiles h'
  directory {p : String} (hp : entryAt h p = some .directory) : entryAt h' p = some .directory

instance : Std.Refl Changes := ⟨fun h => ⟨.refl h, id⟩⟩

instance : IsTrans Host Changes := ⟨fun _ _ _ ha hb => ⟨ha.only.trans hb.only, fun hp => hb.directory (ha.directory hp)⟩⟩

theorem changes_set {h : Host} {p : String} (hp : entryAt h p ≠ some .directory) (e : Entry) :
    h.Changes { h with files := h.files.set p e } := by
  refine ⟨rfl, fun {q} hq => ?_⟩
  rw [Job.entryAt_set hp, if_neg, hq]
  rintro rfl
  exact hp hq

end Host

namespace Job

open Host (Changes)

variable (p q : String) (c : Content)

theorem along_write : (write p c).Along Changes := by
  intro h
  rcases runOn_write_cases p c h with hrun | ⟨f, hrun⟩
  · obtain ⟨-, hdir, -⟩ := write_cases hrun
    rw [hrun]
    exact Host.changes_set hdir _
  · rw [hrun]
    exact refl_of Changes h

theorem along_makeAt : (makeAt p).Along Changes := by
  intro h
  rw [makeAt, runOn_bind (runOn_get h)]
  split
  · exact refl_of Changes h
  · exact refl_of Changes h
  case h_3 hnone => exact Host.changes_set (by simp [hnone]) _

theorem along_makeDirectories (existing : Bool) : (makeDirectories p existing).Along Changes := by
  rw [makeDirectories]
  split
  · exact along_fault _
  · refine ReadsOnly.along (fun _ => rfl) |>.bind fun p => readsOnly_get.along.bind fun h => ?_
    split
    · split
      · exact along_pure _
      · exact along_fault _
    · exact along_fault _
    · refine (Along.forIn (fun q _ => ?_) _).bind fun _ => along_pure _
      exact (along_makeAt q).bind fun _ => along_pure _

theorem readsOnly_exists? : (exists? p).ReadsOnly := fun h => by rw [runOn_exists?]

theorem along_ensureDirectory : (ensureDirectory p).Along Changes := by
  refine (readsOnly_exists? p).along.bind fun there => ?_
  split
  · exact along_makeDirectories p false
  · exact along_pure _

theorem along_writeFiles (r : Rule) (ws : List (Option String)) (cwd : Option String) :
    (writeFiles r ws cwd).Along Changes := by
  refine (Along.forIn (fun file _ => ?_) _).bind fun _ => along_pure _
  refine Along.bind ?_ fun _ => along_pure _
  refine ReadsOnly.along (fun _ => rfl) |>.bind fun p => ?_
  exact (along_makeDirectories (Path.parent p) true).bind fun _ => along_write p file.2

/-- A job after which paths lead where they led before. -/
abbrev Stays {α : Type} (j : Job α) : Prop := j.Along (Host.Same Host.absolutePath)

variable {α : Type} {j : Job α}

theorem Stays.absolutePath_eq (hj : j.Stays) {r : Except Fault α} {h h' : Host} (hrun : j.runOn h = (r, h')) :
    h'.absolutePath = h.absolutePath :=
  hj.related hrun

theorem Along.stays (hj : j.Along Changes) : j.Stays := hj.mono fun _ _ hh' => hh'.only.absolutePath_eq

theorem stays_removeTree : (removeTree p).Stays := by
  intro h
  rw [removeTree, runOn_bind (runOn_lookup p h)]
  split <;> exact Host.absolutePath_congr rfl rfl

end Job

/-! ## Commands -/

namespace Host

variable {new more : List CommandRun} {h h₁ h₂ : Host}

/-- Some commands were noted, but no calls to the container service. Paths lead where they led before, and
what was a directory is one. -/
structure Notes (new : List CommandRun) (h h' : Host) : Prop where
  absolutePath : h'.absolutePath = h.absolutePath
  directory {p : String} (hp : entryAt h p = some .directory) : entryAt h' p = some .directory
  commands : h'.log.commands = h.log.commands ++ new
  docker : h'.log.docker = h.log.docker

theorem Notes.trans (ha : Notes new h h₁) (hb : Notes more h₁ h₂) : Notes (new ++ more) h h₂ :=
  ⟨hb.absolutePath.trans ha.absolutePath, fun hp => hb.directory (ha.directory hp),
    by rw [hb.commands, ha.commands, append_assoc], hb.docker.trans ha.docker⟩

instance : Std.Refl (Notes []) := ⟨fun _ => ⟨rfl, id, (append_nil _).symm, rfl⟩⟩

instance : IsTrans Host (Notes []) := ⟨fun _ _ _ ha hb => ha.trans hb⟩

theorem Changes.notes {h h' : Host} (hh' : h.Changes h') : Notes [] h h' :=
  ⟨hh'.only.absolutePath_eq, hh'.directory, by rw [hh'.only, append_nil], by rw [hh'.only]⟩

theorem Notes.entry? (hn : Notes new h h₁) {p : String} (hp : h.entry? p = some .directory) :
    h₁.entry? p = some .directory := by
  rw [Host.entry?] at hp ⊢
  split at hp
  · cases hp
  case isFalse hne => rw [if_neg hne, hn.absolutePath, hn.directory hp]

end Host

namespace Job

open Host (Notes)

/-- A command is noted, unless too many were run before. -/
theorem notes_call (ws : List String) (cwd : Option String) (env : Option (Table String String)) (h : Host) :
    Notes (if h.commandCount < maxCommands then [{ label := "call", words := .list (words ws), cwd, env }] else [])
      h ((call ws cwd env).runOn h).2 := by
  rw [call, foreground]
  split
  case isFalse hmax =>
    have hrecord : ∀ c, (record c).runOn h = (.error (.cause .runtime), h) := by
      intro c
      rw [record, runOn_bind (runOn_get h), if_pos (by omega)]
      rfl
    rw [runOn_bind_error (hrecord _)]
    exact refl_of (Notes []) h
  case isTrue hmax =>
    have hrecord : ∀ c, ∃ h₁, (record c).runOn h = (.ok (), h₁) ∧ Notes [c] h h₁ := by
      intro c
      rw [record, runOn_bind (runOn_get h), if_neg (by omega)]
      exact ⟨_, rfl, rfl, id, rfl, rfl⟩
    obtain ⟨h₁, hrun, hnotes⟩ := hrecord { label := "call", words := .list (words ws), cwd, env }
    rw [runOn_bind hrun]
    refine @Notes.trans _ [] _ _ _ hnotes (Along.bind readsOnly_get.along (fun g => Along.bind ?_ fun found => ?_) h₁)
    · exact fun _ => ⟨rfl, id, (append_nil _).symm, rfl⟩
    · split
      · exact along_pure _
      case h_2 r =>
        refine Along.bind (fun _ => ⟨rfl, id, (append_nil _).symm, rfl⟩) fun _ => ?_
        have hrest := ((along_writeFiles r (words ws) cwd).mono fun _ _ => Host.Changes.notes).bind fun _ =>
          along_pure r.status
        split_ifs
        · exact (along_fault _).bind fun _ => (along_fault _).bind fun _ => hrest
        · exact (along_fault _).bind fun _ => hrest
        · exact (along_fault _).bind fun _ => hrest
        · exact hrest

end Job

end Vetting
