import Vetting.Calls.Python
import Vetting.Proofs.Calls.Walk

/-!
# Which calls of a module are reported

Without settings, the walk reports every call in the order of the tree. It fails just if a call has no place
in the source, as calls inside of formatted texts do not.
-/

namespace Vetting.Calls.Python

def isCall (t : ModuleTree) : Bool := kindOf t = "Call"

/-- Whether it is known where in the source a node starts and ends. -/
def HasPlace (t : ModuleTree) : Prop := ∃ i, t.info? = some i ∧ i.start.isSome ∧ i.finish.isSome

def noteImport (i : Imports) (t : ModuleTree) : Imports :=
  if kindOf t = "ImportFrom" then i.add t else i

/-- The imports known after some nodes. -/
def importsOf (ns : List ModuleTree) : Imports := ns.foldl noteImport {}

/-- What is reported for a node of a tree, with the names that were imported before it. -/
def Reports (source : List Char) (t n : ModuleTree) (c : Call) : Prop :=
  ∃ before after, t.nodes = before ++ n :: after ∧ callOf source (importsOf before) n = .ok c

variable {source : List Char} {i : Imports} {g g' : Gathered} {t : ModuleTree}

/-! ## One node -/

theorem exists_callOf_iff (source : List Char) (i : Imports) : (∃ c, callOf source i t = .ok c) ↔ HasPlace t := by
  rcases t with ⟨⟨kind, line, text, start, finish⟩, fs⟩ | _ | _ | _ | _
  case node => cases start <;> cases finish <;> simp [callOf, HasPlace, Tree.info?]
  all_goals simp [callOf, HasPlace, Tree.info?]

theorem eq_of_callOf_eq_error {e : Fault} (h : callOf source i t = .error e) : e = .cause .noMember := by
  rw [callOf] at h
  split at h
  · cases h
  · exact (Except.error.inj h).symm

theorem enter_of_filter (f : Filter) (g : Gathered) (t : ModuleTree) : enter source f g t =
      if isCall t then (callOf source g.imports t).map fun c =>
        if f.keeps c then { g with calls := g.calls ++ [c] } else g
      else .ok { g with imports := noteImport g.imports t } := by
  rw [enter, isCall, noteImport]
  by_cases himport : kindOf t = "ImportFrom"
  · simp [himport]
  · by_cases hcall : kindOf t = "Call"
    · simp only [hcall, if_true, decide_true]
      cases callOf source g.imports t <;> rfl
    · simp [himport, hcall]

theorem enter_eq (g : Gathered) (t : ModuleTree) : enter source (.ofConfig? none) g t =
      if isCall t then (callOf source g.imports t).map fun c => { g with calls := g.calls ++ [c] }
      else .ok { g with imports := noteImport g.imports t } :=
  enter_of_filter _ g t

theorem enter_isOk_iff (g : Gathered) (t : ModuleTree) :
    (∃ g', enter source (.ofConfig? none) g t = .ok g') ↔ (isCall t = true → HasPlace t) := by
  rw [enter_eq]
  split
  case isTrue hcall =>
    rw [← exists_callOf_iff source g.imports]
    cases callOf source g.imports t <;> simp [hcall, Except.map]
  case isFalse hcall => simp [hcall]

theorem eq_of_enter_eq_error (g : Gathered) (t : ModuleTree) (e : Fault)
    (h : enter source (.ofConfig? none) g t = .error e) : e = .cause .noMember := by
  rw [enter_eq] at h
  split at h
  case isTrue =>
    cases hcall : callOf source g.imports t with
    | ok c => simp [hcall, Except.map] at h
    | error e' =>
      rw [hcall] at h
      exact Except.error.inj h ▸ eq_of_callOf_eq_error hcall
  case isFalse => cases h

/-- A call adds itself, and another node adds at most imports. -/
theorem enter_step (before : List ModuleTree) (t : ModuleTree) (g g' : Gathered)
    (hg : g.imports = importsOf before) (h : enter source (.ofConfig? none) g t = .ok g') :
    g'.imports = importsOf (before ++ [t]) ∧
      if isCall t then ∃ c, callOf source (importsOf before) t = .ok c ∧ g'.calls = g.calls ++ [c]
      else g'.calls = g.calls := by
  have himports : importsOf (before ++ [t]) = noteImport g.imports t := by
    rw [importsOf, List.foldl_append, hg]
    rfl
  rw [enter_eq] at h
  rw [himports, ← hg]
  by_cases hcall : isCall t = true
  · rw [if_pos hcall] at h ⊢
    have hkind : kindOf t = "Call" := by simpa [isCall] using hcall
    cases hc : callOf source g.imports t with
    | error e => simp [hc, Except.map] at h
    | ok c =>
      rw [hc] at h
      obtain rfl := Except.ok.inj h
      exact ⟨by simp [noteImport, hkind], c, rfl, rfl⟩
  · rw [if_neg hcall] at h ⊢
    obtain rfl := Except.ok.inj h
    exact ⟨rfl, rfl⟩

theorem gather_eq_foldlM (source : List Char) (f : Filter) (t : ModuleTree) :
    gather source f t = t.nodes.foldlM (enter source f) {} := by
  rw [gather, Tree.walk_eq_foldlM, Tree.entered_all]

/-- A module is searched without a fault just if each call in it has a place, and then the report
has exactly one entry for each call, in the order of the nodes. -/
theorem gather_reports_calls (source : List Char) (t : ModuleTree) :
    ((∃ g, gather source (.ofConfig? none) t = .ok g) ↔ ∀ n ∈ t.nodes.filter isCall, HasPlace n) ∧
    (∀ e, gather source (.ofConfig? none) t = .error e → e = .cause .noMember) ∧
    ∀ g, gather source (.ofConfig? none) t = .ok g →
      List.Forall₂ (Reports source t) (t.nodes.filter isCall) g.calls := by
  simp only [gather_eq_foldlM]
  refine ⟨?_, fun e => eq_of_foldlM_eq_error eq_of_enter_eq_error, fun g hg => ?_⟩
  · simp only [foldlM_isOk_iff enter_isOk_iff, List.mem_filter, and_imp]
  · obtain ⟨new, hnew, hall⟩ := Tree.foldlM_reports Gathered.calls (fun before g => g.imports = importsOf before)
      (fun before n c => callOf source (importsOf before) n = .ok c) enter_step [] rfl hg
    obtain rfl : g.calls = new := hnew
    exact hall

end Vetting.Calls.Python
