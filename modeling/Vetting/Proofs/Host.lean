import Vetting.Host.Commands
import Vetting.Proofs.Document

/-!
# What jobs do to the host

The outcome of a job and the host after it. What is at a path is a function of the host, `Host.entry?`, so
that a proof can follow a file through a job.
-/

namespace Vetting

open List

variable {h h' : Host} {p : String} {j : Job α} {xs : List α}

/-! Hosts of examples are compared by evaluation. They store no graphs, so it does not matter how graphs are
compared. -/

noncomputable section

local instance : DecidableEq Graph := Classical.decEq Graph

deriving instance DecidableEq for Content, Entry, Rule, DockerCall, OutsideCall, Workflow, Log, Host

end

namespace Job

variable {α β : Type}

@[simp] theorem runOn_pure (a : α) (h : Host) : (pure a : Job α).runOn h = (.ok a, h) := rfl

@[simp] theorem runOn_get (h : Host) : (get : Job Host).runOn h = (.ok h, h) := rfl

@[simp] theorem runOn_note (f : Log → Log) (h : Host) : (note f).runOn h = (.ok (), { h with log := f h.log }) := rfl

@[simp] theorem runOn_lift (e : Except Fault α) (h : Host) : (liftM e : Job α).runOn h = (e, h) := rfl

theorem runOn_bind {j : Job α} {a : α} {h h' : Host} (hj : j.runOn h = (.ok a, h'))
    (k : α → Job β) : (j >>= k).runOn h = (k a).runOn h' := by
  have hrun : (ExceptT.run j).run h = (.ok a, h') := hj
  rw [runOn, ExceptT.run_bind, StateT.run_bind, hrun]
  rfl

theorem runOn_bind_error {j : Job α} {f : Fault} {h h' : Host} (hj : j.runOn h = (.error f, h'))
    (k : α → Job β) : (j >>= k).runOn h = (.error f, h') := by
  have hrun : (ExceptT.run j).run h = (.error f, h') := hj
  rw [runOn, ExceptT.run_bind, StateT.run_bind, hrun]
  rfl

theorem runOn_orElse {j : Job α} {a : α} {h h' : Host} (hj : j.runOn h = (.ok a, h'))
    (other : Fault → Job α) : (j.orElse other).runOn h = (.ok a, h') := by
  have hrun : (ExceptT.run j).run h = (.ok a, h') := hj
  rw [orElse, runOn, ExceptT.run_tryCatch, StateT.run_bind, hrun]
  rfl

theorem runOn_orElse_error {j : Job α} {f : Fault} {h h' : Host} (hj : j.runOn h = (.error f, h'))
    (other : Fault → Job α) : (j.orElse other).runOn h = (other f).runOn h' := by
  have hrun : (ExceptT.run j).run h = (.error f, h') := hj
  rw [orElse, runOn, ExceptT.run_tryCatch, StateT.run_bind, hrun]
  rfl

theorem runOn_orElseOrdinary {j : Job α} {a : α} {h h' : Host} (hj : j.runOn h = (.ok a, h'))
    (other : Fault → Job α) : (j.orElseOrdinary other).runOn h = (.ok a, h') :=
  runOn_orElse hj _

theorem runOn_orElseOrdinary_error {j : Job α} {f : Fault} {h h' : Host}
    (hj : j.runOn h = (.error f, h')) (hf : f.isOrdinary = true) (other : Fault → Job α) :
    (j.orElseOrdinary other).runOn h = (other f).runOn h' := by
  have hother := runOn_orElse_error hj fun f => if f.isOrdinary then other f else throw f
  rwa [if_pos hf] at hother

theorem exists_of_runOn_bind {j : Job α} {k : α → Job β} {b : β} {h h' : Host}
    (hjk : (j >>= k).runOn h = (.ok b, h')) :
    ∃ a h₁, j.runOn h = (.ok a, h₁) ∧ (k a).runOn h₁ = (.ok b, h') := by
  rcases hj : j.runOn h with ⟨f | a, h₁⟩
  · rw [runOn_bind_error hj] at hjk
    cases hjk
  · exact ⟨a, h₁, rfl, by rwa [runOn_bind hj] at hjk⟩

/-- What the steps before each one make true holds after a walk that gave a result. -/
theorem runOn_foldlM_invariant_from {f : β → α → Job β} (Inv : List α → β → Prop) {xs : List α}
    (hstep : ∀ before, ∀ a ∈ xs, ∀ b b' h h', Inv before b → (f b a).runOn h = (.ok b', h') → Inv (before ++ [a]) b')
    (before : List α) {b b' : β} {h h' : Host} (hb : Inv before b)
    (hrun : (xs.foldlM f b).runOn h = (.ok b', h')) : Inv (before ++ xs) b' := by
  induction xs generalizing before b h with
  | nil =>
    obtain rfl : b = b' := by cases hrun; rfl
    rwa [append_nil]
  | cons a xs ih =>
    rw [foldlM_cons] at hrun
    obtain ⟨b₁, h₁, ha, hrest⟩ := exists_of_runOn_bind hrun
    have hxs := ih (fun before a' ha' => hstep before a' (mem_cons_of_mem a ha')) (before ++ [a])
      (hstep before a mem_cons_self b b₁ h h₁ hb ha) hrest
    rwa [append_assoc, singleton_append] at hxs

theorem exists_runOn_foldlM {f : β → α → Job β} {h : Host} {xs : List α}
    (hstep : ∀ a ∈ xs, ∀ b, ∃ b', (f b a).runOn h = (.ok b', h)) (b : β) :
    ∃ b', (xs.foldlM f b).runOn h = (.ok b', h) := by
  induction xs generalizing b with
  | nil => exact ⟨b, rfl⟩
  | cons a xs ih =>
    obtain ⟨b₁, ha⟩ := hstep a mem_cons_self b
    obtain ⟨b', hrest⟩ := ih (fun a' ha' => hstep a' (mem_cons_of_mem a ha')) b₁
    exact ⟨b', by rw [foldlM_cons, runOn_bind ha, hrest]⟩

/-- If each step of a walk does to the host what another job does, then so does the walk, and what the steps
before each one make true holds after it. -/
theorem exists_runOn_mapM_of_foldlM {γ : Type} {f : β → α → Job β} {g : α → Job γ}
    (Inv : List α → β → List γ → Prop) {xs : List α}
    (hstep : ∀ before, ∀ a ∈ xs, ∀ b cs b' h h', Inv before b cs → (f b a).runOn h = (.ok b', h') →
      ∃ c, (g a).runOn h = (.ok c, h') ∧ Inv (before ++ [a]) b' (cs ++ [c]))
    (before : List α) {b b' : β} {cs : List γ} {h h' : Host} (hb : Inv before b cs)
    (hrun : (xs.foldlM f b).runOn h = (.ok b', h')) :
    ∃ cs', (xs.mapM g).runOn h = (.ok cs', h') ∧ Inv (before ++ xs) b' (cs ++ cs') := by
  induction xs generalizing before b cs h with
  | nil =>
    cases hrun
    exact ⟨[], rfl, by rwa [append_nil, append_nil]⟩
  | cons a xs ih =>
    rw [foldlM_cons] at hrun
    obtain ⟨b₁, h₁, ha, hrest⟩ := exists_of_runOn_bind hrun
    obtain ⟨c, hc, hinv⟩ := hstep before a mem_cons_self b cs b₁ h h₁ hb ha
    obtain ⟨cs', hcs', hinv'⟩ :=
      ih (fun before a' ha' => hstep before a' (mem_cons_of_mem a ha')) (before ++ [a]) hinv hrest
    refine ⟨c :: cs', ?_, by simpa using hinv'⟩
    rw [mapM_cons, runOn_bind hc, runOn_bind hcs', runOn_pure]

/-- If each step of a walk comes through where another job does, then so does the walk. -/
theorem exists_runOn_foldlM_of_mapM {γ : Type} {f : β → α → Job β} {g : α → Job γ} {xs : List α}
    (hstep : ∀ a ∈ xs, ∀ b c h h', (g a).runOn h = (.ok c, h') → ∃ b', (f b a).runOn h = (.ok b', h'))
    (b : β) {cs : List γ} {h h' : Host} (hrun : (xs.mapM g).runOn h = (.ok cs, h')) :
    ∃ b', (xs.foldlM f b).runOn h = (.ok b', h') := by
  induction xs generalizing b cs h with
  | nil =>
    cases hrun
    exact ⟨b, rfl⟩
  | cons a xs ih =>
    rw [mapM_cons] at hrun
    obtain ⟨c, h₁, hc, hrest⟩ := exists_of_runOn_bind hrun
    obtain ⟨cs', h₂, hcs', hres⟩ := exists_of_runOn_bind hrest
    obtain rfl : h₂ = h' := congrArg Prod.snd hres
    obtain ⟨b₁, ha⟩ := hstep a mem_cons_self b c h h₁ hc
    obtain ⟨b', hb'⟩ := ih (fun a' ha' => hstep a' (mem_cons_of_mem a ha')) b₁ hcs'
    exact ⟨b', by rw [foldlM_cons, runOn_bind ha, hb']⟩

theorem runOn_for_invariant_from {g : α → Job PUnit} (Inv : List α → Host → Prop) {xs : List α}
    (hstep : ∀ before, ∀ a ∈ xs, ∀ h, Inv before h → ∃ h', (g a).runOn h = (.ok ⟨⟩, h') ∧ Inv (before ++ [a]) h')
    (before : List α) {h : Host} (hinv : Inv before h) :
    ∃ h', (forIn xs ⟨⟩ fun a _ => do g a; return .yield ⟨⟩ : Job PUnit).runOn h = (.ok ⟨⟩, h') ∧
      Inv (before ++ xs) h' := by
  induction xs generalizing before h with
  | nil => exact ⟨h, rfl, by rwa [append_nil]⟩
  | cons a xs ih =>
    obtain ⟨h₁, ha, hinv₁⟩ := hstep before a mem_cons_self h hinv
    obtain ⟨h', hrest, hinv'⟩ := ih (fun before b hb => hstep before b (mem_cons_of_mem a hb)) _ hinv₁
    refine ⟨h', by rw [forIn_cons, bind_assoc, runOn_bind ha, pure_bind, hrest], ?_⟩
    rwa [append_assoc, singleton_append] at hinv'

/-- What the rounds before each one make true holds after a loop whose rounds all go through. -/
theorem runOn_for_invariant {g : α → Job PUnit} (Inv : List α → Host → Prop) {xs : List α}
    (hstep : ∀ before, ∀ a ∈ xs, ∀ h, Inv before h → ∃ h', (g a).runOn h = (.ok ⟨⟩, h') ∧ Inv (before ++ [a]) h')
    {h : Host} (hinv : Inv [] h) :
    ∃ h', (forIn xs ⟨⟩ fun a _ => do g a; return .yield ⟨⟩ : Job PUnit).runOn h = (.ok ⟨⟩, h') ∧
      Inv xs h' :=
  runOn_for_invariant_from Inv hstep [] hinv

theorem exists_runOn {j : Job α} {a : α} {h : Host} (hj : (j.runOn h).1.toOption = some a) :
    ∃ h', j.runOn h = (.ok a, h') := by
  rcases hrun : j.runOn h with ⟨f | b, h'⟩
  · rw [hrun] at hj
    cases hj
  · rw [hrun] at hj
    exact ⟨h', by rw [Option.some.inj hj]⟩

def ReadsOnly (j : Job α) : Prop := ∀ h, (j.runOn h).2 = h

theorem ReadsOnly.bind {j : Job α} {k : α → Job β} (hj : j.ReadsOnly) (hk : ∀ a, (k a).ReadsOnly) :
    (j >>= k).ReadsOnly := by
  intro h
  have hkeep := hj h
  rcases hrun : j.runOn h with ⟨f | a, h₁⟩
  · rw [runOn_bind_error hrun]
    rwa [hrun] at hkeep
  · rw [runOn_bind hrun, hk a h₁]
    rwa [hrun] at hkeep

theorem readsOnly_pure (a : α) : (pure a : Job α).ReadsOnly := fun _ => rfl

theorem readsOnly_fault (c : Cause) : (fault c : Job α).ReadsOnly := fun _ => rfl

theorem readsOnly_get : (get : Job Host).ReadsOnly := fun _ => rfl

end Job

namespace Job

variable {σ β : Type} {step : σ → Job (σ ⊕ β)} {a : σ} {b : β} {h h' : Host}

/-- A loop comes to its end: after finitely many rounds one gives a result. -/
inductive RunsTo (step : σ → Job (σ ⊕ β)) : σ → Host → β → Host → Prop where
  | done {a : σ} {h : Host} {b : β} {h' : Host} (hstep : (step a).runOn h = (.ok (.inr b), h')) : RunsTo step a h b h'
  | again {a a' : σ} {h h₁ : Host} {b : β} {h' : Host}
      (hstep : (step a).runOn h = (.ok (.inl a'), h₁)) (hrest : RunsTo step a' h₁ b h') :
      RunsTo step a h b h'

theorem RunsTo.runOn_repeatM [Nonempty β] (hrun : RunsTo step a h b h') : (repeatM step a).runOn h = (.ok b, h') := by
  induction hrun with
  | done hstep =>
    rw [repeatM_eq_of_monadTail, repeatM.body, runOn_bind hstep]
    rfl
  | again hstep _ ih =>
    rw [repeatM_eq_of_monadTail, repeatM.body, runOn_bind hstep]
    exact ih

end Job

/-! ## Files -/

def Entry.isDirectory : Entry → Bool
  | .directory => true
  | .file _ => false

theorem Entry.any_isDirectory_iff (e : Option Entry) : e.any isDirectory = true ↔ e = some .directory := by
  rcases e with _ | _ | _ <;> simp [isDirectory]

namespace Host

def absolutePath (h : Host) (p : String) : String :=
  let p := Path.normal (Path.join h.cwd p)
  if Text.startsWithAny p Job.fixedDirectories then h.root ++ p else p

def entry? (h : Host) (p : String) : Option Entry :=
  if p.isEmpty then none else Job.entryAt h (h.absolutePath p)

/-- Whether a path is that of a directory or of something below it. -/
def Within (h : Host) (p dir : String) : Prop :=
  h.absolutePath p = h.absolutePath dir ∨ Path.isBelow (h.absolutePath p) (h.absolutePath dir) = true

/-- A file can be written at a path: no directory is there, and the place for it is one. -/
def CanWrite (h : Host) (p : String) : Prop :=
  p ≠ "" ∧ Job.entryAt h (h.absolutePath p) ≠ some .directory ∧
    Job.entryAt h (Path.parent (h.absolutePath p)) = some .directory

instance (h : Host) (p : String) : Decidable (h.CanWrite p) :=
  decidable_of_iff (p ≠ "" ∧ ¬(Job.entryAt h (h.absolutePath p)).any Entry.isDirectory = true ∧
      (Job.entryAt h (Path.parent (h.absolutePath p))).any Entry.isDirectory = true) <| by
    rw [CanWrite, Entry.any_isDirectory_iff, Entry.any_isDirectory_iff]

@[simp] theorem entry?_withLog (h : Host) (l : Log) (p : String) : entry? { h with log := l } p = h.entry? p := rfl

@[simp] theorem absolutePath_withFiles (h : Host) (t : Table String Entry) (p : String) :
    absolutePath { h with files := t } p = h.absolutePath p := rfl

theorem absolutePath_congr (hroot : h'.root = h.root) (hcwd : h'.cwd = h.cwd) :
    h'.absolutePath = h.absolutePath := by
  funext p
  rw [absolutePath, absolutePath, hroot, hcwd]

end Host

namespace Job

@[simp] theorem runOn_absolute (p : String) (h : Host) : (absolute p).runOn h = (.ok (h.absolutePath p), h) := rfl

@[simp] theorem runOn_lookup (p : String) (h : Host) : (lookup p).runOn h = (.ok (h.entry? p), h) := by
  rw [lookup, Host.entry?]
  split <;> rfl

@[simp] theorem runOn_exists? (p : String) (h : Host) : (exists? p).runOn h = (.ok (h.entry? p).isSome, h) := by
  rw [exists?, runOn_bind (runOn_lookup p h), runOn_pure]

variable {c : Content}

theorem runOn_content {h : Host} (hc : h.entry? p = some (.file c)) :
    (content p).runOn h = (.ok c, h) := by
  rw [content, runOn_bind (runOn_lookup p h), hc]
  rfl

theorem runOn_content_directory {h : Host} (hd : h.entry? p = some .directory) :
    (content p).runOn h = (.error (.cause .isDirectory), h) := by
  rw [content, runOn_bind (runOn_lookup p h), hd]
  rfl

theorem readsOnly_content (p : String) : (content p).ReadsOnly := by
  intro h
  rw [content, runOn_bind (runOn_lookup p h)]
  split <;> rfl

theorem readsOnly_readText (p : String) : (readText p).ReadsOnly := by
  refine (readsOnly_content p).bind fun c => ?_
  split
  · exact readsOnly_pure _
  · exact readsOnly_fault _

theorem readsOnly_readBytes (p : String) : (readBytes p).ReadsOnly := by
  refine (readsOnly_content p).bind fun c => ?_
  split <;> exact readsOnly_pure _

theorem readsOnly_readMessage (shape p : String) : (readMessage shape p).ReadsOnly := by
  refine (readsOnly_readText p).bind fun s => ?_
  split
  · exact readsOnly_pure _
  · exact readsOnly_fault _

theorem runOn_readText {p s : String} {h : Host} (hc : h.entry? p = some (.file c)) (hs : Content.text? c = some s) :
    (readText p).runOn h = (.ok s, h) := by
  rw [readText, runOn_bind (runOn_content hc), hs]
  rfl

theorem runOn_readDoc {p s : String} {d : Doc} {h : Host} (hc : h.entry? p = some (.file c))
    (hs : Content.text? c = some s) (hd : Doc.parse? s = some d) : (readDoc p).runOn h = (.ok d, h) := by
  rw [readDoc, runOn_bind (runOn_readText hc hs), hd]
  rfl

def Content.message (shape : String) (c : Content) : Except Fault Doc :=
  match Content.text? c with
  | none => .error (.cause .undecodable)
  | some s => (Message.ofText? shape s).elim (.error (.cause .badMessageText)) .ok

theorem runOn_readMessage {p : String} {h : Host} (hc : h.entry? p = some (.file c)) (shape : String) :
    (readMessage shape p).runOn h = (Content.message shape c, h) := by
  rw [readMessage, readText, bind_assoc, runOn_bind (runOn_content hc), Content.message]
  cases Content.text? c with
  | none => rfl
  | some s =>
    simp only [pure_bind]
    cases Message.ofText? shape s <;> rfl

theorem runOn_readMessage_directory {p : String} {h : Host} (hd : h.entry? p = some .directory)
    (shape : String) : (readMessage shape p).runOn h = (.error (.cause .isDirectory), h) := by
  rw [readMessage, readText, bind_assoc, runOn_bind_error (runOn_content_directory hd)]

theorem runOn_readGraph {p : String} {g : Graph} {h : Host}
    (hg : h.entry? p = some (.file (.graph g false))) : (readGraph p).runOn h = (.ok g, h) := by
  rw [readGraph, runOn_bind (runOn_content hg)]
  rfl

theorem runOn_write {h : Host} (hp : h.CanWrite p) (c : Content) : (write p c).runOn h =
      (.ok (), { h with files := h.files.set (h.absolutePath p) (.file c) }) := by
  obtain ⟨hempty, hdir, hparent⟩ := hp
  rw [write, if_neg (by simpa using hempty)]
  beta_reduce
  rw [runOn_bind (runOn_absolute p h), runOn_bind (runOn_get h)]
  split
  case h_1 hat => exact absurd hat hdir
  case h_2 => simp only [hparent]; rfl

theorem write_cases {p : String} {h h' : Host} (hw : (write p c).runOn h = (.ok (), h')) :
    p ≠ "" ∧ entryAt h (h.absolutePath p) ≠ some .directory ∧
      h' = { h with files := h.files.set (h.absolutePath p) (.file c) } := by
  rw [write] at hw
  split at hw
  case isTrue => cases hw
  case isFalse hp =>
    rw [runOn_bind (runOn_absolute p h), runOn_bind (runOn_get h)] at hw
    split at hw
    case h_1 => cases hw
    case h_2 hdir =>
      split at hw
      case h_1 => exact ⟨by simpa using hp, hdir, (congrArg Prod.snd hw).symm⟩
      case h_2 => cases hw
      case h_3 => cases hw

theorem entryAt_set {h : Host} {a : String} (ha : entryAt h a ≠ some .directory) (e : Entry) (b : String) :
    entryAt { h with files := h.files.set a e } b = if a = b then some e else entryAt h b := by
  by_cases hab : a = b
  · subst hab
    have hplace : ¬ (a = "/" ∨ a = h.root) := by
      intro hp
      simp [entryAt, hp] at ha
    simp [entryAt, hplace, Table.get?_set]
  · simp only [entryAt, Table.get?_set, if_neg hab]

theorem entry?_of_runOn_write (hw : (write p c).runOn h = (.ok (), h')) (q : String) :
    h'.entry? q =
      if q ≠ "" ∧ h.absolutePath q = h.absolutePath p then some (.file c) else h.entry? q := by
  obtain ⟨-, hdir, rfl⟩ := write_cases hw
  simp only [Host.entry?, Host.absolutePath_withFiles, entryAt_set hdir]
  by_cases hq : q = ""
  · simp [hq]
  · simp [hq, eq_comm (a := h.absolutePath q)]

theorem entry?_written (hw : (write p c).runOn h = (.ok (), h')) :
    h'.entry? p = some (.file c) := by
  rw [entry?_of_runOn_write hw, if_pos ⟨(write_cases hw).1, rfl⟩]

theorem entry?_directory_of_runOn_write {p q : String} (hw : (write p c).runOn h = (.ok (), h'))
    (hq : h.entry? q = some .directory) : h'.entry? q = some .directory := by
  rw [entry?_of_runOn_write hw, if_neg, hq]
  rintro ⟨hne, heq⟩
  rw [Host.entry?, if_neg (by simpa using hne), heq] at hq
  exact (write_cases hw).2.1 hq

theorem canWrite_of_runOn_write {p q : String} (hq : h.CanWrite q)
    (hw : (write p c).runOn h = (.ok (), h')) : h'.CanWrite q := by
  obtain ⟨-, hdir, rfl⟩ := write_cases hw
  obtain ⟨hne, hfile, hparent⟩ := hq
  refine ⟨hne, ?_, ?_⟩
  · rw [Host.absolutePath_withFiles, entryAt_set hdir]
    split
    · simp
    · exact hfile
  · change entryAt { h with files := _ } (Path.parent (h.absolutePath q)) = _
    rw [entryAt_set hdir, if_neg, hparent]
    intro heq
    exact hdir (heq ▸ hparent)

theorem runOn_removeTree {h : Host} (hp : h.entry? p = some .directory) :
    ∃ h', (removeTree p).runOn h = (.ok (), h') := by
  rw [removeTree, runOn_bind (runOn_lookup p h), hp]
  exact ⟨_, rfl⟩

theorem entry?_of_runOn_removeTree {p q : String}
    (hr : (removeTree p).runOn h = (.ok (), h')) (hq : ¬ h.Within q p) : h'.entry? q = h.entry? q := by
  have hkeep : (!(h.absolutePath q == h.absolutePath p ||
      Path.isBelow (h.absolutePath q) (h.absolutePath p))) = true := by
    simpa [Host.Within] using hq
  have hget := Table.get?_filter h.files
    (fun k => !(k == h.absolutePath p || Path.isBelow k (h.absolutePath p))) hkeep
  rw [removeTree, runOn_bind (runOn_lookup p h)] at hr
  split at hr
  · cases hr
  · cases hr
  · rw [runOn_bind (runOn_absolute p h)] at hr
    obtain rfl := congrArg Prod.snd hr
    simp only [Host.entry?]
    split
    · rfl
    · exact if_congr Iff.rfl rfl hget

theorem runOn_write_cases (p : String) (c : Content) (h : Host) :
    (write p c).runOn h = (.ok (), { h with files := h.files.set (h.absolutePath p) (.file c) }) ∨
      ∃ f, (write p c).runOn h = (.error f, h) := by
  rw [write]
  split
  · exact .inr ⟨_, rfl⟩
  · rw [runOn_bind (runOn_absolute p h), runOn_bind (runOn_get h)]
    split
    · exact .inr ⟨_, rfl⟩
    · split
      · exact .inl rfl
      · exact .inr ⟨_, rfl⟩
      · exact .inr ⟨_, rfl⟩

end Job

/-! ## Texts -/

namespace Host

def put (h : Host) (p s : String) : Host :=
  { h with files := h.files.set (h.absolutePath p) (.file (.text s)) }

@[simp] theorem absolutePath_put (h : Host) (p s : String) : (h.put p s).absolutePath = h.absolutePath := rfl

@[simp] theorem put_put (h : Host) (p s t : String) : (h.put p s).put p t = h.put p t := by
  rw [put, absolutePath_put, put, Table.set_set, put]

variable {h : Host} {p : String}

theorem entryAt_put (hp : h.CanWrite p) (s q : String) : Job.entryAt (h.put p s) q =
      if h.absolutePath p = q then some (.file (.text s)) else Job.entryAt h q :=
  Job.entryAt_set hp.2.1 _ q

theorem entry?_put_self (hp : h.CanWrite p) (s : String) : entry? (h.put p s) p = some (.file (.text s)) := by
  rw [Host.entry?, if_neg (by simpa using hp.1), absolutePath_put, entryAt_put hp, if_pos rfl]

theorem entry?_put_of_ne (hp : h.CanWrite p) {q : String} (hq : h.absolutePath q ≠ h.absolutePath p)
    (s : String) : entry? (h.put p s) q = h.entry? q := by
  rw [Host.entry?, Host.entry?, absolutePath_put, entryAt_put hp, if_neg hq.symm]

theorem CanWrite.put (hp : h.CanWrite p) {q : String} (hq : h.CanWrite q) (s : String) : (h.put p s).CanWrite q := by
  obtain ⟨hne, hfile, hparent⟩ := hq
  refine ⟨hne, ?_, ?_⟩
  · rw [absolutePath_put, entryAt_put hp]
    split
    · simp
    · exact hfile
  · rw [absolutePath_put, entryAt_put hp, if_neg, hparent]
    intro heq
    exact hp.2.1 (heq ▸ hparent)

end Host

namespace Job

variable {h : Host} {p : String}

theorem runOn_writeText (hp : h.CanWrite p) (s : String) : (writeText p s).runOn h = (.ok (), h.put p s) :=
  runOn_write hp (.text s)

theorem runOn_appendText_put (hp : h.CanWrite p) (s t : String) :
    (appendText p t).runOn (h.put p s) = (.ok (), h.put p (s ++ t)) := by
  rw [appendText, runOn_bind (runOn_lookup p _), Host.entry?_put_self hp, ← h.put_put p s (s ++ t)]
  exact runOn_writeText (hp.put hp s) (s ++ t)

theorem runOn_readText_put (hp : h.CanWrite p) (s : String) :
    (readText p).runOn (h.put p s) = (.ok (String.ofList (Text.unifyLineEnds s.toList)), h.put p s) :=
  runOn_readText (Host.entry?_put_self hp s) rfl

end Job

namespace Host

/-- Whether directories can stand at some places: no file is there. -/
def Free (h : Host) (ps : List String) : Prop := ∀ p ∈ ps, ∀ c, Job.entryAt h p ≠ some (.file c)

/-- Whether nothing but files changed from one host to another. -/
def OnlyFiles (h h' : Host) : Prop := h' = { h with files := h'.files }

namespace OnlyFiles

variable {h h' h'' : Host}

theorem refl (h : Host) : h.OnlyFiles h := rfl

theorem put (h : Host) (p s : String) : h.OnlyFiles (h.put p s) := rfl

theorem trans (hh' : h.OnlyFiles h') (hh'' : h'.OnlyFiles h'') : h.OnlyFiles h'' := by
  rw [OnlyFiles, hh'', hh']

theorem absolutePath_eq (hh' : h.OnlyFiles h') : h'.absolutePath = h.absolutePath := by
  rw [hh']
  rfl

end OnlyFiles

end Host

namespace Job

theorem runOn_makeAt {h : Host} (hp : ∀ c, entryAt h p ≠ some (.file c)) :
    ∃ h', (makeAt p).runOn h = (.ok (), h') ∧ h.OnlyFiles h' ∧
      ∀ q, entryAt h' q = if q = p then some .directory else entryAt h q := by
  rw [makeAt, runOn_bind (runOn_get h)]
  cases hat : entryAt h p with
  | none =>
    refine ⟨_, rfl, rfl, fun q => ?_⟩
    rw [entryAt_set (by simp [hat])]
    exact if_congr eq_comm rfl rfl
  | some e =>
    cases e with
    | file c => exact absurd hat (hp c)
    | directory =>
      refine ⟨h, rfl, .refl h, fun q => ?_⟩
      split
      case isTrue heq => rw [heq, hat]
      case isFalse => rfl

/-- Directories are made where no files are; all else is as it was. -/
theorem runOn_makeDirectories {h : Host} (hp : p ≠ "")
    (habsent : entryAt h (h.absolutePath p) = none) (hfree : h.Free (ancestors (h.absolutePath p)))
    (existing : Bool) :
    ∃ h', (makeDirectories p existing).runOn h = (.ok (), h') ∧ h.OnlyFiles h' ∧ ∀ q, entryAt h' q =
        if q ∈ ancestors (h.absolutePath p) then some .directory else entryAt h q := by
  let Inv (made : List String) (h' : Host) : Prop :=
    h.OnlyFiles h' ∧ ∀ q, entryAt h' q = if q ∈ made then some .directory else entryAt h q
  have hstep : ∀ made, ∀ a ∈ ancestors (h.absolutePath p), ∀ h₁, Inv made h₁ →
      ∃ h₂, (makeAt a).runOn h₁ = (.ok ⟨⟩, h₂) ∧ Inv (made ++ [a]) h₂ := by
    rintro made a ha h₁ ⟨honly, hentry⟩
    have hfile : ∀ c, entryAt h₁ a ≠ some (.file c) := by
      intro c
      rw [hentry]
      split
      · simp
      · exact hfree a ha c
    obtain ⟨h₂, hrun, honly₂, hmade⟩ := runOn_makeAt hfile
    refine ⟨h₂, hrun, honly.trans honly₂, fun q => ?_⟩
    rw [hmade, hentry]
    by_cases hq : q = a <;> simp [hq]
  rw [makeDirectories, if_neg (by simpa using hp)]
  beta_reduce
  rw [runOn_bind (runOn_absolute p h), runOn_bind (runOn_get h)]
  simp only [habsent]
  have hstart : Inv [] h := ⟨.refl h, fun q => by rw [if_neg not_mem_nil]⟩
  obtain ⟨h', hrun, honly, hentry⟩ := runOn_for_invariant Inv hstep hstart
  refine ⟨h', ?_, honly, hentry⟩
  rw [runOn_bind hrun]
  rfl

end Job

end Vetting
