import Vetting.Proofs.Calls.JavaScript
import Vetting.Proofs.Calls.Python

/-!
# Settings only leave calls out

A walk with settings reports the calls that the settings look for, in the order of the walk without them.
-/

namespace Vetting.Calls

open Filter

variable (s : Api.Config) (c : Call)

/-- The name that a listed function goes by: its full name, or where names are compared without their base its
own, with a dot in front if it has one. -/
def listedName (a : Api.Node) : String :=
  if s.funcOnly then (if a.baseType = "" then a.name else "." ++ a.name) else a.fullName

def comparedName : String :=
  if s.funcOnly then c.bareName else c.fullName

/-- Settings look for a call if it goes by the name of a use that they list. -/
def LooksFor : Prop :=
  ∃ a ∈ s.apis, a.kind = .functionRef ∧ listedName s a = comparedName s c

instance (s : Api.Config) (c : Call) : Decidable (LooksFor s c) :=
  inferInstanceAs (Decidable (∃ a ∈ s.apis, a.kind = .functionRef ∧ listedName s a = comparedName s c))

variable (calls : List Call) (source : List Char)

/-- The calls among some that settings look for. -/
def wanted : List Call := calls.filter fun c => LooksFor s c

theorem keeps_ofConfig : (ofConfig s).keeps c = decide (LooksFor s c) := by
  have hname : ∀ a, nameOf s.funcOnly a = listedName s a := by
    intro a
    simp [nameOf, listedName]
  have hcheck : (ofConfig s).checkName c = comparedName s c := rfl
  rw [Bool.eq_iff_iff, decide_eq_true_iff, keeps, hcheck]
  simp [ofConfig, LooksFor, hname, and_assoc]

theorem wanted_concat (c : Call) : wanted s (calls ++ [c]) =
      if (ofConfig s).keeps c then wanted s calls ++ [c] else wanted s calls := by
  rw [wanted, List.filter_append, keeps_ofConfig]
  by_cases hc : LooksFor s c <;> simp [wanted, hc]

theorem Python.enter_wanted (s : Api.Config) (g : Gathered) (t : ModuleTree) :
    enter source (.ofConfig s) { g with calls := wanted s g.calls } t =
      (enter source (.ofConfig? none) g t).map fun g => { g with calls := wanted s g.calls } := by
  rw [enter_of_filter, enter_eq]
  split
  · cases callOf source g.imports t with
    | error e => rfl
    | ok c =>
      simp only [Except.map, wanted_concat]
      split <;> rfl
  · rfl

theorem JavaScript.enter_wanted (s : Api.Config) (calls : List Call) (t : ScriptTree) :
    enter source (.ofConfig s) (wanted s calls) t = (enter source (.ofConfig? none) calls t).map (wanted s) := by
  rw [enter_of_filter, enter_eq]
  split
  · cases callOf source (isNew t) t with
    | error e => rfl
    | ok c =>
      simp only [Except.map, wanted_concat]
  · rfl

/-- With settings, a module and a script are searched without a fault just if they are without, and the report is
what the report without settings has of the calls that are looked for. -/
theorem gather_of_settings (source : List Char) (s : Api.Config) :
    (∀ t, Python.gather source (.ofConfig? (some s)) t = (Python.gather source (.ofConfig? none) t).map fun g =>
        { imports := g.imports, calls := g.calls.filter fun c => LooksFor s c }) ∧
    ∀ t, JavaScript.gather source (.ofConfig? (some s)) t =
      (JavaScript.gather source (.ofConfig? none) t).map fun calls =>
        calls.filter fun c => LooksFor s c := by
  constructor
  · intro t
    rw [Python.gather_eq_foldlM, Python.gather_eq_foldlM]
    exact foldlM_map _ (Python.enter_wanted source s) t.nodes {}
  · intro t
    rw [JavaScript.gather, JavaScript.gather, Tree.walk_eq_foldlM, Tree.walk_eq_foldlM]
    exact foldlM_map _ (JavaScript.enter_wanted source s) (t.entered JavaScript.isSkipped) []

end Vetting.Calls
