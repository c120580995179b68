import Vetting.Proofs.Effects
import Vetting.Proofs.Fault
import Vetting.Proofs.Path
import Vetting.Sync

/-!
# Archives that are lost

A run for updates sets out to fetch the versions that the latest list does not name, each into a directory of
its own, and the list that it went by is the latest one then, whatever came of the archives. So a version that
the latest list names is fetched no more, and neither is one whose directory is there.
-/

namespace Vetting.Sync

open List Job

open Vetting.Path (join)

open Host (Notes Changes)

/-! ## Directories -/

/-- Paths lead where they led before, and what was a directory is one. -/
def Lasts (h h' : Host) : Prop := ∃ new, Notes new h h'

instance : Std.Refl Lasts := ⟨fun h => ⟨[], refl_of (Notes []) h⟩⟩

instance : IsTrans Host Lasts where
  trans := by
    rintro _ _ _ ⟨new, hnew⟩ ⟨more, hmore⟩
    exact ⟨new ++ more, hnew.trans hmore⟩

theorem along_call (ws : List String) (cwd : Option String) : (call ws cwd).Along Lasts :=
  fun h => ⟨_, notes_call ws cwd none h⟩

section Links

variable (outdir skipfile : String)

def latestPath : String := join outdir "all_npm_pkgs_tarball.latest.json"

def listPath : String := join outdir "all_npm_pkgs_with_docs.sync_incr.json"

variable {outdir}

/-- The latest list names a version. -/
def Named (outdir : String) (g : Host) (n v : String) : Prop :=
  ∃ d w ks, (readDoc (latestPath outdir)).runOn g = (.ok d, g) ∧ d.at n = .ok w ∧ w.keys = .ok ks ∧ v ∈ ks

end Links

end Vetting.Sync
