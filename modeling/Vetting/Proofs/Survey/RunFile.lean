import Vetting.Proofs.Alert.Collection
import Vetting.Proofs.Path

/-!
# The name of a report's file

A report is saved under the name that its run has in containers, and looked for under the name in files.
-/

namespace Vetting

open List Alert.Run

variable {version : Option String}

namespace Package

/-- A package has one name in containers and files, and its version is read as it is. -/
def Traceable (name : String) (version : Option String) : Prop :=
  name.toList.head?.all Char.isAlphanum = true ∧ ∀ v, version = some v → IsPart v ∧ v ≠ "None"

instance (name : String) (version : Option String) : Decidable (Traceable name version) :=
  match version with
  | none => decidable_of_iff (name.toList.head?.all Char.isAlphanum = true) (by simp [Traceable])
  | some v => decidable_of_iff (name.toList.head?.all Char.isAlphanum = true ∧ IsPart v ∧ v ≠ "None")
      (by simp [Traceable])

theorem cut_ne {n m t w v : List Char} {l : List Char} (hv : '.' :: v = t ++ ('.' :: '.' :: w))
    (hl : l = w ∨ (l = "latest".toList ∧ (w = [] ∨ w = "None".toList))) :
    n ++ '.' :: t ++ ':' :: l ≠ m ++ ':' :: v := by
  intro heq
  have hlen : v.length = t.length + 1 + w.length := by
    have := congrArg List.length hv
    simp only [length_cons, length_append] at this
    omega
  rcases hl with rfl | ⟨rfl, hw⟩
  · -- as long as the name without the cut, but with a dot for the colon
    have hnm : n.length = m.length := by
      have := congrArg List.length heq
      simp only [length_cons, length_append] at this
      omega
    rw [append_assoc] at heq
    have := (append_inj heq hnm).2
    simp at this
  · -- the ends differ
    obtain ⟨c, cs, rfl⟩ : ∃ c cs, v = c :: cs :=
      exists_cons_of_length_pos (by omega)
    have hend : (m ++ ':' :: c :: cs).getLast? = (t ++ ('.' :: '.' :: w)).getLast? := by
      rw [← hv]
      simp [getLast?_append, getLast?_cons]
    rw [← heq] at hend
    rcases hw with rfl | rfl
    · simp [getLast?_append, getLast?_cons] at hend
    · simp [getLast?_append, getLast?_cons] at hend

theorem versionLabel_versionOf (w : String) : (versionLabel (versionOf w)).toList = w.toList ∨
      ((versionLabel (versionOf w)).toList = "latest".toList ∧ (w.toList = [] ∨ w.toList = "None".toList)) := by
  by_cases hnone : w = "None"
  · subst hnone
    exact .inr ⟨rfl, .inr rfl⟩
  · have hv : versionOf w = some w := if_neg hnone
    by_cases hempty : w.isEmpty = true
    · exact .inr ⟨by simp [hv, versionLabel, hempty], .inl (by simpa using hempty)⟩
    · exact .inl (by simp [hv, versionLabel, hempty])

variable {asRoot : Bool} {s : String}

theorem dynamicFile_inj {n m : String} {v w : Option String} :
    dynamicFile n v asRoot false true = dynamicFile m w asRoot false false ↔
      n.toList ++ ':' :: (versionLabel v).toList = fileName m.toList ++ ':' :: (versionLabel w).toList := by
  have hfile : (forFile m).toList = fileName m.toList := String.toList_ofList
  rw [dynamicFile, dynamicFile, versioned_eq, versioned_eq, ← String.toList_inj]
  simp only [String.toList_append, append_left_inj, if_true, hfile, Bool.false_eq_true, if_false]
  simp only [append_assoc]
  rfl

/-- The name of a container tells the version as it is, or a part of it if a separator cuts it. -/
theorem ofContainer_cases {name : String}
    (hs : containerFor name version (some (if asRoot then "d_sudo" else "d")) = .ok s) :
    ∃ n, containerName name.toList = .ok n ∧ ((IsPart (shown version) ∧ ofContainer s =
            .ok ⟨String.ofList n, versionOf (shown version), asRoot⟩) ∨
        ∃ v t w, version = some v ∧ ¬ IsPart v ∧ '.' :: v.toList = t.toList ++ ("..".toList ++ w.toList) ∧
          ofContainer s = .ok ⟨String.ofList n ++ "." ++ t, versionOf w, asRoot⟩) := by
  obtain ⟨n, hn, rfl⟩ := exists_of_containerFor hs
  have hjob : IsPart (if asRoot then "d_sudo" else "d") := by cases asRoot <;> decide +kernel
  have hroot : Text.endsWith (if asRoot then "d_sudo" else "d") "sudo" = asRoot := by
    cases asRoot <;> decide +kernel
  refine ⟨n, hn, ?_⟩
  by_cases hpart : IsPart (shown version)
  · refine .inl ⟨hpart, ?_⟩
    rw [Alert.ofContainer_append _ hpart hjob, hroot]
  · cases version with
    | none => exact absurd (by decide +kernel) hpart
    | some v =>
      obtain ⟨t, w, hvw, hof⟩ := Alert.ofContainer_append_of_not_isPart (String.ofList n) hpart hjob
      rw [hroot] at hof
      exact .inr ⟨v, t, w, rfl, hpart, hvw, hof⟩

theorem exists_ofContainer {name : String}
    (hs : containerFor name version (some (if asRoot then "d_sudo" else "d")) = .ok s) :
    ∃ k, ofContainer s = .ok k := by
  obtain ⟨n, -, ⟨-, hk⟩ | ⟨v, t, w, -, -, -, hk⟩⟩ := ofContainer_cases hs
  · exact ⟨_, hk⟩
  · exact ⟨_, hk⟩

/-- A version that no separator cuts is found again, but for the text that stands for no version. -/
theorem dynamicFile_eq_iff_of_isPart {name : String} {n : List Char}
    (hn : containerName name.toList = .ok n) (version : Option String) (asRoot : Bool) :
    dynamicFile (String.ofList n) (versionOf (shown version)) asRoot false true =
        dynamicFile name version asRoot false false ↔
      name.toList.head?.all Char.isAlphanum = true ∧ version ≠ some "None" := by
  have htext : (String.ofList n).toList = n := String.toList_ofList
  rw [dynamicFile_inj, htext]
  by_cases hnone : version = some "None"
  · refine iff_of_false (fun heq => ?_) fun h => h.2 hnone
    have hend := congrArg List.getLast? heq
    simp [getLast?_append, getLast?_cons, hnone, versionLabel, versionOf, shown] at hend
  · have hlabel : versionLabel (versionOf (shown version)) = versionLabel version := by
      cases version with
      | none => rfl
      | some v =>
        have hv : shown (some v) ≠ "None" := fun hv => hnone (congrArg some hv)
        rw [versionOf, if_neg hv, shown]
    rw [hlabel, append_left_inj, containerName_eq_fileName_iff hn]
    exact ⟨fun h => ⟨h, hnone⟩, And.left⟩

theorem dynamicFile_ne_of_not_isPart (name n : String) {v t w : String} (hv : ¬ IsPart v)
    (hvw : '.' :: v.toList = t.toList ++ ("..".toList ++ w.toList)) (asRoot : Bool) :
    dynamicFile (n ++ "." ++ t) (versionOf w) asRoot false true ≠ dynamicFile name (some v) asRoot false false := by
  intro heq
  have hne : v.isEmpty = false := by
    by_contra hempty
    have hv' : v = "" := by simpa using hempty
    exact hv (hv' ▸ by decide +kernel)
  have hlabel : versionLabel (some v) = v := by simp [versionLabel, hne]
  have hcut : n.toList ++ '.' :: t.toList ++ ':' :: (versionLabel (versionOf w)).toList =
      fileName name.toList ++ ':' :: v.toList := by
    simpa [hlabel] using dynamicFile_inj.1 heq
  exact cut_ne hvw (versionLabel_versionOf w) hcut

/-- The report on a run is saved under the name that it is looked for under just if the package and
its version are traceable. -/
theorem dynamicFile_eq_iff {name : String} {k : Alert.Run}
    (hs : containerFor name version (some (if asRoot then "d_sudo" else "d")) = .ok s)
    (hk : ofContainer s = .ok k) :
    dynamicFile k.name k.version k.asRoot false true = dynamicFile name version asRoot false false ↔
      Traceable name version := by
  obtain ⟨n, hn, ⟨hpart, hof⟩ | ⟨v, t, w, rfl, hpart, hvw, hof⟩⟩ := ofContainer_cases hs
  · obtain rfl := Except.ok.inj (hof.symm.trans hk)
    refine (dynamicFile_eq_iff_of_isPart hn version asRoot).trans (and_congr_right fun _ => ?_)
    cases version with
    | none => simp
    | some v =>
      have hv : IsPart v := hpart
      simp [hv]
  · obtain rfl := Except.ok.inj (hof.symm.trans hk)
    exact iff_of_false (dynamicFile_ne_of_not_isPart name _ hpart hvw asRoot) fun h => hpart (h.2 _ rfl).1

theorem slash_notMem_containerName {cs n : List Char} (h : containerName cs = .ok n) : '/' ∉ n := by
  cases cs with
  | nil =>
    obtain rfl := Except.ok.inj h
    exact not_mem_nil
  | cons c cs =>
    obtain ⟨d, ds, -, ⟨-, rfl⟩ | ⟨-, rfl⟩⟩ := containerName_cases h
    · exact notMem_dotInvalid (by decide) _
    · rw [mem_append, not_or]
      exact ⟨by decide, notMem_dotInvalid (by decide) _⟩

theorem isName_dynamicFile {n : String} {v : Option String} (hn : '/' ∉ n.toList)
    (hv : '/' ∉ (versionLabel v).toList) (asRoot : Bool) :
    Path.IsName (dynamicFile n v asRoot false true) := by
  have hchars : (dynamicFile n v asRoot false true).toList =
      n.toList ++ (':' :: (versionLabel v).toList ++ (sudoMark asRoot ++ ".dynamic.txt").toList) := by
    rw [dynamicFile, versioned_eq]
    simp only [String.toList_append, append_assoc, if_true]
    rfl
  have hmark : '/' ∉ (sudoMark asRoot).toList := by cases asRoot <;> decide +kernel
  have hcolon : ':' ∈ (dynamicFile n v asRoot false true).toList := by simp [hchars]
  refine ⟨by simp [hchars, hn, hv, hmark], ?_, ?_, ?_⟩
  all_goals
    intro h
    rw [h] at hcolon
    exact absurd hcolon (by decide)

theorem slash_notMem_versionLabel
    (hv : ∀ v, version = some v → '/' ∉ v.toList) : '/' ∉ (versionLabel version).toList := by
  cases version with
  | none => decide +kernel
  | some v =>
    rw [versionLabel]
    split
    · decide +kernel
    · exact hv v rfl

theorem slash_notMem_versionOf {w : String} (hw : '/' ∉ w.toList) : '/' ∉ (versionLabel (versionOf w)).toList := by
  refine slash_notMem_versionLabel fun v hv => ?_
  rw [versionOf] at hv
  split at hv
  · cases hv
  · exact Option.some.inj hv ▸ hw

section

variable {name : String} {version : Option String} (hv : ∀ v, version = some v → '/' ∉ v.toList)

include hv

theorem isName_dynamicFile_package (asRoot : Bool) : Path.IsName (dynamicFile name version asRoot false false) := by
  have hname := slash_notMem_forFile name
  exact isName_dynamicFile hname (slash_notMem_versionLabel hv) asRoot

theorem isName_dynamicFile_run {k : Alert.Run}
    (hs : containerFor name version (some (if asRoot then "d_sudo" else "d")) = .ok s)
    (hk : ofContainer s = .ok k) : Path.IsName (dynamicFile k.name k.version k.asRoot false true) := by
  obtain ⟨n, hn, ⟨-, hof⟩ | ⟨v, t, w, rfl, -, hvw, hof⟩⟩ := ofContainer_cases hs
  · obtain rfl := Except.ok.inj (hof.symm.trans hk)
    have hname : '/' ∉ (String.ofList n).toList := by
      rw [String.toList_ofList]
      exact slash_notMem_containerName hn
    have hshown : '/' ∉ (shown version).toList := by
      cases version with
      | none => decide +kernel
      | some v => exact hv v rfl
    exact isName_dynamicFile hname (slash_notMem_versionOf hshown) asRoot
  · obtain rfl := Except.ok.inj (hof.symm.trans hk)
    have hparts : '/' ∉ t.toList ++ ("..".toList ++ w.toList) := by
      rw [← hvw]
      simpa using hv v rfl
    simp only [mem_append, not_or] at hparts
    have hname : '/' ∉ (String.ofList n ++ "." ++ t).toList := by
      simpa [hparts.1] using slash_notMem_containerName hn
    exact isName_dynamicFile hname (slash_notMem_versionOf hparts.2.2) asRoot

end

end Package

end Vetting
