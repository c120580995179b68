import Vetting.Alert
import Vetting.Proofs.Fault
import Vetting.Proofs.Package.Name
import Vetting.Proofs.Table

/-!
# Alerts are filed for the package that ran

Taking the name of a container apart from the right gives back the package, version and job that went in.
-/

namespace Vetting

open List Package Except

namespace Alert

theorem cutAtLast_append {sep : String} (x y : String) (h : ¬ sep.toList <:+: sep.toList.tail ++ y.toList) :
    cutAtLast sep (x ++ sep ++ y) = some (x, y) := by
  have hrev : ¬ sep.toList.reverse <:+: y.toList.reverse ++ sep.toList.reverse.dropLast := by
    rw [dropLast_reverse, ← reverse_append, reverse_infix]
    exact h
  have hfind := Text.findChars_append hrev x.toList.reverse
  have hlist : (x ++ sep ++ y).toList.reverse =
      y.toList.reverse ++ (sep.toList.reverse ++ x.toList.reverse) := by simp
  have hchars : (x ++ sep ++ y).toList = x.toList ++ (sep.toList ++ y.toList) := by simp
  have hdrop : (x ++ sep ++ y).toList.length - y.toList.reverse.length = x.toList.length + sep.toList.length := by
    simp only [hchars, length_append, length_reverse]
    omega
  simp only [cutAtLast, hlist, hfind, hdrop]
  rw [hchars, ← String.length_toList, Nat.add_sub_cancel, take_left, ← drop_drop,
    drop_left, drop_left, String.ofList_toList, String.ofList_toList]

theorem cutAtLast_isPart (x : String) {y : String} (h : Package.IsPart y) :
    cutAtLast ".." (x ++ ".." ++ y) = some (x, y) :=
  cutAtLast_append x y (isPart_iff.1 h)

theorem cutAtLast_eq_none {sep s : String} (h : ¬ sep.toList <:+: s.toList) : cutAtLast sep s = none := by
  have hfind : Text.findChars sep.toList.reverse s.toList.reverse = none :=
    Text.findChars_eq_none (by rwa [ reverse_infix])
  simp only [cutAtLast, hfind]

theorem cutAtLast_cases (s : String) : (¬ "..".toList <:+: s.toList ∧ cutAtLast ".." s = none) ∨
      ∃ x y, s = x ++ ".." ++ y ∧ Package.IsPart y ∧ cutAtLast ".." s = some (x, y) := by
  by_cases h : "..".toList <:+: s.toList
  · obtain ⟨xs, y, hs, hy⟩ := exists_last_separator h
    have hsplit : s = String.ofList xs ++ ".." ++ y := by
      apply String.toList_injective
      simp [hs]
    exact .inr ⟨String.ofList xs, y, hsplit, hy, hsplit ▸ cutAtLast_isPart _ hy⟩
  · exact .inl ⟨h, cutAtLast_eq_none h⟩

theorem infix_of_separator (a b : String) : "..".toList <:+: (a ++ ".." ++ b).toList := by
  rw [String.toList_append, String.toList_append]
  exact infix_append a.toList "..".toList b.toList

variable {s : String} {x : Option Observation}

theorem splitContainer_eq_none_iff : splitContainer s = none ↔ ∀ n v j, s ≠ n ++ ".." ++ v ++ ".." ++ j := by
  constructor
  · rintro hnone n v j rfl
    obtain ⟨hcut, -⟩ | ⟨x, y, hs, hy, hcut⟩ := cutAtLast_cases (n ++ ".." ++ v ++ ".." ++ j)
    · exact hcut (infix_of_separator _ j)
    · have hx : (n ++ ".." ++ v).toList <+: x.toList :=
        prefix_of_last_separator hy (by simpa using congrArg String.toList hs.symm)
      obtain ⟨hcut', -⟩ | ⟨x', y', -, -, hcut'⟩ := cutAtLast_cases x
      · exact hcut' ((infix_of_separator n v).trans hx.isInfix)
      · simp [splitContainer, hcut, hcut'] at hnone
  · intro hparts
    obtain ⟨-, hcut⟩ | ⟨x, j, rfl, -, hcut⟩ := cutAtLast_cases s
    · simp [splitContainer, hcut]
    · obtain ⟨-, hcut'⟩ | ⟨n, v, rfl, -, -⟩ := cutAtLast_cases x
      · simp [splitContainer, hcut, hcut']
      · exact absurd rfl (hparts n v j)

/-- The version that a part of a container's name tells. -/
def Run.versionOf (v : String) : Option String := if v = "None" then none else some v

variable {v job name : String} {version : Option String} {fields : List (String × Doc)} {o : Observation} {alert : Doc} {alerts : List Doc}

theorem ofContainer_append (n : String) (hv : Package.IsPart v) (hj : Package.IsPart job) :
    Run.ofContainer (n ++ ".." ++ v ++ ".." ++ job) =
      .ok { name := n, version := Run.versionOf v, asRoot := Text.endsWith job "sudo" } := by
  rw [Run.ofContainer, splitContainer, cutAtLast_isPart _ hj]
  simp only [cutAtLast_isPart _ hv, Run.versionOf]

theorem ofContainer_append_of_not_isPart (n : String) (hv : ¬ Package.IsPart v) (hj : Package.IsPart job) :
    ∃ t w : String, '.' :: v.toList = t.toList ++ ("..".toList ++ w.toList) ∧
      Run.ofContainer (n ++ ".." ++ v ++ ".." ++ job) =
        .ok { name := n ++ "." ++ t, version := Run.versionOf w, asRoot := Text.endsWith job "sudo" } := by
  obtain ⟨t, w, hvw, hw⟩ := exists_last_separator (not_not.1 (isPart_iff.not.1 hv))
  have htext : (String.ofList t).toList = t := String.toList_ofList
  have heq : n ++ ".." ++ v = n ++ "." ++ String.ofList t ++ ".." ++ w := by
    apply String.toList_injective
    calc (n ++ ".." ++ v).toList
        = n.toList ++ ("..".toList ++ v.toList) := by simp
      _ = n.toList ++ (".".toList ++ ('.' :: v.toList)) := rfl
      _ = n.toList ++ (".".toList ++ (t ++ ("..".toList ++ w.toList))) := by rw [hvw]
      _ = (n ++ "." ++ String.ofList t ++ ".." ++ w).toList := by simp
  refine ⟨String.ofList t, w, htext.symm ▸ hvw, ?_⟩
  rw [heq, ofContainer_append _ hw hj]

theorem ne_of_containerFor {job s : String} (hs : containerFor name version (some job) = .ok s) :
    s ≠ "" ∧ s ≠ "host" := by
  obtain ⟨n, -, rfl⟩ := exists_of_containerFor hs
  have hdot : '.' ∈ (String.ofList n ++ ".." ++ shown version ++ ".." ++ job).toList := by
    simp
  refine ⟨fun h => ?_, fun h => ?_⟩
  · rw [h] at hdot
    exact absurd hdot (by decide)
  · rw [h] at hdot
    exact absurd hdot (by decide)

/-- What was put into a container's name is read from it again. -/
theorem ofContainer_containerFor {n : List Char} (hn : containerName name.toList = .ok n)
    (hv : ∀ v, version = some v → Package.IsPart v ∧ v ≠ "None") (hj : Package.IsPart job) :
    ∃ s, containerFor name version (some job) = .ok s ∧ Run.ofContainer s =
        .ok { name := String.ofList n, version := version, asRoot := Text.endsWith job "sudo" } := by
  refine ⟨String.ofList n ++ ".." ++ shown version ++ ".." ++ job, ?_, ?_⟩
  · rw [containerFor, containerPrefix, hn]
    rfl
  · have hpart : Package.IsPart (shown version) := by
      cases version with
      | none => decide +kernel
      | some v => exact (hv v rfl).1
    rw [ofContainer_append _ hpart hj]
    cases version with
    | none => rfl
    | some v => simp [shown, Run.versionOf, (hv v rfl).2]

/-! ## Filing -/

deriving instance ReflBEq, LawfulBEq for Run

deriving instance ReflBEq, LawfulBEq for Rule

namespace Collection

def under (c : Collection) (k : Run) (r : Rule) : Option (List Observation) :=
  (c.get? k).bind fun findings => findings.get? r

/-- What is filed for a run under a rule has an observation, if there is one. -/
def Holds (c : Collection) (k : Run) (r : Rule) (x : Option Observation) : Prop :=
  ∃ xs, c.under k r = some xs ∧ ∀ o, x = some o → xs.any (·.same o) = true

theorem get?_file (c : Collection) (k j : Run) (r : Rule) (x : Option Observation) :
    (c.file k r x).get? j = if k = j then
      some (((c.get? k).getD []).modify r [] fun xs => x.elim xs (insertNew xs)) else c.get? j := by
  rw [file, Table.get?_modify]
  cases x <;> rfl

theorem under_file (c : Collection) (k j : Run) (r q : Rule) (x : Option Observation) :
    (c.file k r x).under j q = if k = j ∧ r = q then
      some (x.elim ((c.under k r).getD []) (insertNew ((c.under k r).getD []))) else c.under j q := by
  rw [under, get?_file]
  by_cases hk : k = j
  · subst hk
    have hgetD : ((c.get? k).getD []).get? q = c.under k q := by
      rw [under]
      cases c.get? k <;> rfl
    have hgetD' : ((c.get? k).getD []).get? r = c.under k r := by
      rw [under]
      cases c.get? k <;> rfl
    rw [if_pos rfl, Option.bind_some, Table.get?_modify, hgetD, hgetD']
    by_cases hr : r = q <;> simp [hr]
  · simp [hk, under]

theorem any_insertNew (xs : List Observation) (o p : Observation) (h : xs.any (·.same p) = true) :
    (insertNew xs o).any (·.same p) = true := by
  rw [insertNew]
  split
  · exact h
  · rw [any_append, h, Bool.true_or]

theorem Holds.file {c : Collection} {k : Run} {r : Rule} (h : c.Holds k r x) (j : Run) (q : Rule)
    (y : Option Observation) : (c.file j q y).Holds k r x := by
  obtain ⟨xs, hxs, hx⟩ := h
  rw [Holds, under_file]
  by_cases hjq : j = k ∧ q = r
  · obtain ⟨rfl, rfl⟩ := hjq
    refine ⟨_, if_pos ⟨rfl, rfl⟩, fun o ho => ?_⟩
    rw [hxs, Option.getD_some]
    cases y with
    | none => exact hx o ho
    | some p => exact any_insertNew xs p o (hx o ho)
  · exact ⟨xs, by rw [if_neg hjq, hxs], hx⟩

theorem holds_file (c : Collection) (k : Run) (r : Rule) (hx : ∀ o, x = some o → o.same o = true) :
    (c.file k r x).Holds k r x := by
  refine ⟨_, (c.under_file k k r r x).trans (if_pos ⟨rfl, rfl⟩), fun o ho => ?_⟩
  subst ho
  simp only [Option.elim_some, insertNew]
  split
  case isTrue h => exact h
  case isFalse => simp [hx o rfl]

end Collection

theorem same_self_of_isAtom {d : Doc} (h : isAtom d = true) : d.same d = true := by
  cases d <;> simp_all [isAtom, Doc.same, Doc.number?, Doc.sameDecimal]

theorem sameList_self {ds : List Doc} (h : ∀ d ∈ ds, isAtom d = true) : Doc.sameList ds ds = true := by
  induction ds with
  | nil => simp [Doc.sameList]
  | cons d ds ih =>
    rw [forall_mem_cons] at h
    simp [Doc.sameList, same_self_of_isAtom h.1, ih h.2]

theorem of_countable {x : Observation} (h : countable x = .ok (some o)) : x = o ∧ ∀ d ∈ o.parts, isAtom d = true := by
  rw [countable] at h
  split at h
  case isTrue hall =>
    obtain rfl := Option.some.inj (ok.inj h)
    exact ⟨rfl, all_eq_true.1 hall⟩
  case isFalse => cases h

def Rule.shows : Rule → Observation → Bool
  | .spawnProcess, .process _ _ _ => true
  | .spawnProcess, _ => false
  | .sensitiveOperation, .operation _ _ _ => true
  | .sensitiveOperation, _ => false
  | _, .target _ => true
  | _, _ => false

/-- An observation is of its rule's kind, and no part of it holds others. A part is null, a text or a field, and
null only as the system call of an operation. -/
theorem spec_of_observe {r : Rule} (h : observe r fields = .ok (some o)) :
    r.shows o = true ∧ (∀ d ∈ o.parts, isAtom d = true) ∧
      ∀ d ∈ o.parts, (d = .null → ∃ user command, o = .operation user command .null) ∧
        (d = .null ∨ (∃ s, d = .str s) ∨ ∃ k, field fields k = .ok d) := by
  cases r with
  | outgoingDomain | incomingDomain =>
    obtain ⟨v, -, h⟩ := bind_eq_ok_iff.1 h
    split at h
    · obtain ⟨s, -, rfl⟩ := Option.map_eq_some_iff.1 (ok.inj h)
      simp [Rule.shows, Observation.parts, isAtom]
    · cases h
  | outgoingIp | incomingIp | writeFile | readFile | statFile =>
    obtain ⟨v, hv, h⟩ := bind_eq_ok_iff.1 h
    split at h
    · cases h
    next hne =>
    obtain ⟨rfl, hatoms⟩ := of_countable h
    refine ⟨rfl, hatoms, ?_⟩
    rintro d (_ | ⟨_, ⟨⟩⟩)
    exact ⟨fun hnull => absurd hnull hne, .inr (.inr ⟨_, hv⟩)⟩
  | spawnProcess =>
    obtain ⟨user, huser, h⟩ := bind_eq_ok_iff.1 h
    split at h
    · cases h
    obtain ⟨program, hprogram, h⟩ := bind_eq_ok_iff.1 h
    split at h
    · cases h
    obtain ⟨command, hcommand, h⟩ := bind_eq_ok_iff.1 h
    split at h
    · cases h
    obtain ⟨rfl, hatoms⟩ := of_countable h
    refine ⟨rfl, hatoms, ?_⟩
    simp only [Observation.parts, forall_mem_cons]
    grind
  | sensitiveOperation =>
    obtain ⟨user, huser, h⟩ := bind_eq_ok_iff.1 h
    split at h
    · cases h
    obtain ⟨command, hcommand, h⟩ := bind_eq_ok_iff.1 h
    split at h
    · cases h
    obtain ⟨rfl, hatoms⟩ := of_countable h
    have hcall : (fields.lookup "evt.type").getD .null = .null ∨
        field fields "evt.type" = .ok ((fields.lookup "evt.type").getD .null) := by
      cases hlookup : fields.lookup "evt.type" <;> simp [field, hlookup]
    refine ⟨rfl, hatoms, ?_⟩
    simp only [Observation.parts, forall_mem_cons]
    grind

theorem same_self_of_observe {r : Rule} (h : observe r fields = .ok (some o)) : o.same o = true :=
  sameList_self (spec_of_observe h).2.1

/-! ## Streams of alerts -/

theorem Rule.ofWord?_word (r : Rule) : ofWord? r.word = some r := by
  cases r <;> decide +kernel

def containerOf? (a : Doc) : Option String :=
  match a with
  | .obj alert =>
    match (alert.lookup "output_fields").getD (.obj []) with
    | .obj fields =>
      match (fields.lookup "container.name").getD .null with
      | .str s => some s
      | _ => none
    | _ => none
  | _ => none

namespace Collection

variable {k : Run} {r : Rule} {c c' : Collection}

/-- An alert from a container is filed for the run that the container's name tells. -/
theorem add_of_container {alert fields : List (String × Doc)}
    (hfields : alert.lookup "output_fields" = some (.obj fields))
    (hname : fields.lookup "container.name" = some (.str s)) (hs : s ≠ "") (hhost : s ≠ "host")
    (hk : Run.ofContainer s = .ok k) (hrule : alert.lookup "rule" = some (.str r.word)) (c : Collection) :
    c.add (.obj alert) = c.file k r <$> observe r fields := by
  have htruthy : (Doc.str s).truthy = true := by simpa [Doc.truthy] using hs
  simp [add, hfields, hname, htruthy, hhost, hk, field, hrule, Rule.ofWord?_word]

theorem add_cases (h : c.add alert = .ok c') :
    c' = c ∨ ∃ s k r x, containerOf? alert = some s ∧ Run.ofContainer s = .ok k ∧ c' = c.file k r x := by
  unfold add at h
  split at h
  case h_2 => cases h
  case h_1 alert =>
  split at h
  case h_2 => cases h
  case h_1 fields hfields =>
  dsimp only at h
  split at h
  case isTrue => exact .inl (ok.inj h).symm
  split at h
  case h_2 => cases h
  case h_1 s hname =>
  split at h
  case isTrue => exact .inl (ok.inj h).symm
  obtain ⟨run, hrun, h⟩ := bind_eq_ok_iff.1 h
  obtain ⟨rule, -, h⟩ := bind_eq_ok_iff.1 h
  split at h
  case h_2 => cases h
  split at h
  case h_1 r _ =>
    obtain ⟨x, -, h⟩ := bind_eq_ok_iff.1 h
    refine .inr ⟨s, run, r, x, ?_, hrun, (ok.inj h).symm⟩
    simp only [containerOf?, hfields, hname]
  case h_2 =>
    split at h
    · cases h
    · exact .inl (ok.inj h).symm

theorem Holds.add (hx : c.Holds k r x) (h : c.add alert = .ok c') : c'.Holds k r x := by
  obtain rfl | ⟨s, j, q, y, -, -, rfl⟩ := add_cases h
  · exact hx
  · exact hx.file j q y

theorem Holds.foldlM (hx : c.Holds k r x) (h : alerts.foldlM Collection.add c = .ok c') : c'.Holds k r x := by
  induction alerts generalizing c with
  | nil => exact ok.inj h ▸ hx
  | cons a alerts ih =>
    rw [foldlM_cons] at h
    obtain ⟨c₁, hadd, h⟩ := bind_eq_ok_iff.1 h
    exact ih (hx.add hadd) h

end Collection

namespace Collection

theorem foldlM_of_container {k : Run} (hk : Run.ofContainer s = .ok k)
    (hall : ∀ a ∈ alerts, containerOf? a = some s) {c c' : Collection}
    (hc : c = [] ∨ ∃ findings, c = [(k, findings)]) (h : alerts.foldlM add c = .ok c') :
    c' = [] ∨ ∃ findings, c' = [(k, findings)] := by
  induction alerts generalizing c with
  | nil => exact ok.inj h ▸ hc
  | cons a alerts ih =>
    rw [forall_mem_cons] at hall
    rw [foldlM_cons] at h
    obtain ⟨c₁, hadd, h⟩ := bind_eq_ok_iff.1 h
    refine ih hall.2 ?_ h
    obtain rfl | ⟨t, j, r, x, ht, hj, rfl⟩ := add_cases hadd
    · exact hc
    · obtain rfl : s = t := Option.some.inj (hall.1.symm.trans ht)
      obtain rfl : k = j := ok.inj (hk.symm.trans hj)
      obtain rfl | ⟨findings, rfl⟩ := hc
      · exact .inr ⟨_, rfl⟩
      · exact .inr ⟨_, Table.set_singleton k _ _⟩

end Collection

/-- Container names tell what ran: for every package name that is not made of scope signs only, and every version
and job that no separator cuts, each alert of a known rule from the container is filed, if its fields tell
anything at all, for that package, that version, and with the rights that the job tells. Nothing else changes,
and what is filed stays filed in every stream of alerts. -/
theorem collect_containerFor (name : String) (hname : ∃ c ∈ name.toList, c ≠ '@')
    (version : Option String) (hversion : ∀ v, version = some v → Package.IsPart v ∧ v ≠ "None")
    (job : String) (hjob : Package.IsPart job) :
    ∃ n s, Package.containerName name.toList = .ok n ∧ Package.containerFor name version (some job) = .ok s ∧
      ∀ (r : Rule) (alert fields : List (String × Doc)), alert.lookup "rule" = some (.str r.word) →
        alert.lookup "output_fields" = some (.obj fields) →
        fields.lookup "container.name" = some (.str s) →
        let k : Run := ⟨String.ofList n, version, Text.endsWith job "sudo"⟩
        (∀ c : Collection, c.add (.obj alert) = c.file k r <$> observe r fields) ∧
        (∀ (c : Collection) (x : Option Observation), observe r fields = .ok x →
          (c.file k r x).Holds k r x ∧ (∀ j, j ≠ k → (c.file k r x).get? j = c.get? j) ∧
            ∀ q, q ≠ r → (c.file k r x).under k q = c.under k q) ∧
        ∀ (before after : List Doc) (c : Collection), collect (before ++ .obj alert :: after) = .ok c →
          ∃ x, observe r fields = .ok x ∧ c.Holds k r x := by
  obtain ⟨n, hn⟩ := Package.exists_containerName hname
  obtain ⟨s, hs, hof⟩ := ofContainer_containerFor hn hversion hjob
  obtain ⟨hne, hhost⟩ := ne_of_containerFor hs
  refine ⟨n, s, hn, hs, fun r alert fields hrule hfields hcontainer => ?_⟩
  intro k
  have hadd := Collection.add_of_container hfields hcontainer hne hhost hof hrule
  have hholds : ∀ (c : Collection) (x : Option Observation), observe r fields = .ok x →
      (c.file k r x).Holds k r x := fun c x hx =>
    c.holds_file k r fun o ho => same_self_of_observe (ho ▸ hx)
  refine ⟨hadd, fun c x hx => ⟨hholds c x hx, fun j hj => ?_, fun q hq => ?_⟩, ?_⟩
  · rw [Collection.get?_file, if_neg (Ne.symm hj)]
  · rw [Collection.under_file, if_neg fun h => hq h.2.symm]
  · intro before after c hc
    rw [collect, foldlM_append] at hc
    obtain ⟨c₁, -, hc⟩ := bind_eq_ok_iff.1 hc
    rw [foldlM_cons, hadd] at hc
    obtain ⟨c₂, hfile, hc⟩ := bind_eq_ok_iff.1 hc
    obtain ⟨x, hx, rfl⟩ := map_eq_ok_iff.1 hfile
    exact ⟨x, hx, (hholds c₁ x hx).foldlM hc⟩

/-- The alert of a run whose package name and version both end with a dot. -/
def dottedAlert : List (String × Doc) := [
  ("rule", .str "read_file"),
  ("output_fields", .obj [
    ("container.name", .str "a..b...1.0...d_sudo"), ("fd.name", .str "/etc/passwd")])]

theorem collect_containerFor_dotted :
    (∃ c ∈ "a/b.".toList, c ≠ '@') ∧ (Package.IsPart "1.0." ∧ "1.0." ≠ "None") ∧ Package.IsPart "d_sudo" ∧
      Package.containerFor "a/b." (some "1.0.") (some "d_sudo") = .ok "a..b...1.0...d_sudo" ∧
      ∃ c, collect [.obj dottedAlert] = .ok c ∧
        c.Holds ⟨"a..b.", some "1.0.", true⟩ .readFile (some (.target (.str "/etc/passwd"))) := by
  have hname : ∃ c ∈ "a/b.".toList, c ≠ '@' := ⟨'a', by decide, by decide⟩
  have hversion : Package.IsPart "1.0." ∧ "1.0." ≠ "None" := by decide +kernel
  have hjob : Package.IsPart "d_sudo" := by decide +kernel
  obtain ⟨n, s, hn, hs, h⟩ := collect_containerFor "a/b." hname (some "1.0.")
    (fun v hv => Option.some.inj hv ▸ hversion) "d_sudo" hjob
  obtain rfl : "a..b.".toList = n := Except.ok.inj hn
  obtain rfl : "a..b...1.0...d_sudo" = s := Except.ok.inj hs
  obtain ⟨hadd, hfile, -⟩ := h .readFile dottedAlert _ rfl rfl rfl
  exact ⟨hname, hversion, hjob, hs, _, hadd [], (hfile [] _ rfl).1⟩

end Alert

end Vetting
