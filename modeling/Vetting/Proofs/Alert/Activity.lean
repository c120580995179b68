import Vetting.Proofs.Survey.Streams

/-!
# One activity for each observation

Where all fields of the alerts are texts or null, only the system call of a sensitive operation can be
missing.
-/

namespace Vetting

open Message List

namespace Alert

def textFields (texts : List (String × String)) : List (String × Doc) :=
  texts.flatMap fun p => Api.textField p.1 p.2

theorem messageTexts_cases (kvs : List (String × Doc)) :
    (∃ texts : List (String × String), kvs = texts.map (fun p => (p.1, .str p.2)) ∧
        messageTexts kvs = .ok (.obj (textFields texts))) ∨
      (∃ p ∈ kvs, ∀ s, p.2 ≠ .str s) ∧ messageTexts kvs = .error (.cause .wrongType) := by
  induction kvs with
  | nil => exact .inl ⟨[], rfl, rfl⟩
  | cons p kvs ih =>
    obtain ⟨k, v⟩ := p
    have hcons : messageTexts ((k, v) :: kvs) = messageText k v >>= fun gs =>
        (fun d => Doc.obj (gs ++ d.fieldsOf)) <$> messageTexts kvs := by
      simp only [messageTexts, mapM_cons, bind_assoc, pure_bind, map_bind, map_pure]
      rfl
    rw [hcons]
    cases v with
    | str s =>
      rcases ih with ⟨texts, rfl, hok⟩ | ⟨⟨p, hp, hnone⟩, herror⟩
      · exact .inl ⟨(k, s) :: texts, rfl, by rw [hok]; rfl⟩
      · exact .inr ⟨⟨p, mem_cons_of_mem _ hp, hnone⟩, by rw [herror]; rfl⟩
    | _ => exact .inr ⟨⟨_, mem_cons_self, by simp⟩, rfl⟩

theorem keys_textFields_sublist (texts : List (String × String)) :
    ((textFields texts).map Prod.fst).Sublist (texts.map Prod.fst) := by
  induction texts with
  | nil => simp [textFields]
  | cons p texts ih =>
    rw [textFields, flatMap_cons, map_append, map_cons]
    rw [Api.textField]
    split
    · exact ih.cons p.1
    · exact ih.cons_cons p.1

theorem lookup_textFields {texts : List (String × String)} (h : (texts.map Prod.fst).Nodup)
    {p : String × String} (hp : p ∈ texts) :
    (textFields texts).lookup p.1 = if p.2 = "" then none else some (.str p.2) := by
  induction texts with
  | nil => cases hp
  | cons q texts ih =>
    obtain ⟨hq, htexts⟩ := nodup_cons.1 h
    have hcons : textFields (q :: texts) = Api.textField q.1 q.2 ++ textFields texts := rfl
    rw [hcons, lookup_append]
    rcases mem_cons.1 hp with rfl | hp
    · have hrest : (textFields texts).lookup p.1 = none := lookup_eq_none_iff.2 fun r hr => by
        have hkey := (keys_textFields_sublist texts).subset (mem_map_of_mem hr)
        simpa using fun h : p.1 = r.1 => hq (h ▸ hkey)
      by_cases hempty : p.2 = "" <;> simp [Api.textField, hempty, hrest]
    · have hne : (p.1 == q.1) = false := by
        simpa using fun h : p.1 = q.1 => hq (h ▸ mem_map_of_mem hp)
      have hfirst : (Api.textField q.1 q.2).lookup p.1 = none := by
        rw [Api.textField]
        split <;> simp [lookup_cons, hne]
      rw [hfirst, Option.none_or, ih htexts hp]

theorem textOf_normal_textFields {shape : String} {texts : List (String × String)} (h : (texts.map Prod.fst).Nodup)
    (hfields : ∀ p ∈ texts, ∃ f, field? shape p.1 = some f ∧ f.kind = .text ∧ f.many = false)
    {p : String × String} (hp : p ∈ texts) :
    Api.textOf (normal shape (.obj (textFields texts))) p.1 = p.2 := by
  obtain ⟨f, hf, hkind, -⟩ := hfields p hp
  have hnodup : ((textFields texts).map Prod.fst).Nodup := h.sublist (keys_textFields_sublist texts)
  rw [Api.textOf, field?_normal hf hnodup, lookup_textFields h hp]
  by_cases hempty : p.2 = ""
  · simp [hempty]
  · simp [hempty, normalField, normalPlain, normalAtom, isDefault, hkind, Doc.str?]

theorem mem_keys_of_mem_normal {shape : String} {fs : List (String × Doc)} {p : String × Doc}
    (h : p ∈ (normal shape (.obj fs)).fieldsOf) : p.1 ∈ fs.map Prod.fst := by
  obtain ⟨before, after, hfs, -⟩ := lookup_eq_some_iff.1 (mem_ordered.1 h).2
  have hmem : p ∈ normalFields shape fs := by rw [hfs]; simp
  exact (keys_normalFields_sublist shape fs).subset (mem_map_of_mem hmem)

/-! ## What an activity tells -/

/-- The names under which the activities of a rule tell the parts of an observation. -/
def Rule.partNames : Rule → List String
  | .outgoingDomain | .incomingDomain => ["domain"]
  | .outgoingIp | .incomingIp => ["ip"]
  | .writeFile | .readFile | .statFile => ["filepath"]
  | .spawnProcess => ["user", "exe", "cmdline"]
  | .sensitiveOperation => ["user", "cmdline", "syscall"]

/-- How a file was touched, for the rules about files. -/
def Rule.mode : Rule → String
  | .writeFile => "w"
  | .readFile => "r"
  | .statFile => "e"
  | _ => ""

/-- An activity that tells the parts of an observation, how a file was touched, and nothing else. -/
structure Depicts (r : Rule) (o : Observation) (x : Doc) : Prop where
  parts : (r.partNames.map fun k => Doc.str (Api.textOf x k)) = o.parts
  mode : Api.textOf x "mode" = r.mode
  only : ∀ p ∈ x.fieldsOf, p.1 ∈ r.textNames

def Rule.texts (r : Rule) (o : Observation) : List (String × Doc) :=
  r.partNames.zip o.parts ++ if r.mode = "" then [] else [("mode", Doc.str r.mode)]

variable {r : Rule} {o : Observation}

theorem activity_eq_messageTexts (h : r.shows o = true) : activity r o = messageTexts (r.texts o) := by
  cases r <;> cases o <;> first | rfl | cases h

theorem keys_texts (h : r.shows o = true) : (r.texts o).map Prod.fst = r.textNames := by
  cases r <;> cases o <;> first | rfl | cases h

theorem length_partNames (h : r.shows o = true) : r.partNames.length = o.parts.length := by
  cases r <;> cases o <;> first | rfl | cases h

theorem nodup_textNames (r : Rule) : r.textNames.Nodup := by
  cases r <;> decide

theorem activity_cases (h : r.shows o = true) : ((∀ d ∈ o.parts, ∃ s, d = .str s) ∧ ∃ a, activity r o = .ok a) ∨
      (∃ d ∈ o.parts, ∀ s, d ≠ .str s) ∧ activity r o = .error (.cause .wrongType) := by
  rw [activity_eq_messageTexts h]
  have hparts : ∀ d ∈ o.parts, ∃ p ∈ r.texts o, p.2 = d := by
    intro d hd
    rw [← map_snd_zip (length_partNames h).ge, mem_map] at hd
    obtain ⟨p, hp, rfl⟩ := hd
    exact ⟨p, mem_append_left _ hp, rfl⟩
  rcases messageTexts_cases (r.texts o) with ⟨texts, htexts, hok⟩ | ⟨⟨p, hp, hnone⟩, herror⟩
  · refine .inl ⟨fun d hd => ?_, _, hok⟩
    obtain ⟨p, hp, rfl⟩ := hparts d hd
    rw [htexts, mem_map] at hp
    obtain ⟨q, -, rfl⟩ := hp
    exact ⟨q.2, rfl⟩
  · refine .inr ⟨?_, herror⟩
    rcases mem_append.1 hp with hp | hp
    · exact ⟨p.2, (of_mem_zip hp).2, hnone⟩
    · -- how a file was touched is always a text
      split at hp
      · cases hp
      · rw [mem_singleton.1 hp] at hnone
        exact absurd rfl (hnone r.mode)

theorem depicts_of_activity (h : r.shows o = true) {a : Doc} (ha : activity r o = .ok a) :
    Depicts r o (normal (listShape r.activityList) a) := by
  rw [activity_eq_messageTexts h] at ha
  obtain ⟨texts, htexts, hok⟩ | ⟨-, herror⟩ := messageTexts_cases (r.texts o)
  case inr =>
    rw [herror] at ha
    cases ha
  obtain rfl : Doc.obj (textFields texts) = a := Except.ok.inj (hok.symm.trans ha)
  have hkeys : texts.map Prod.fst = r.textNames := by
    rw [← keys_texts h, htexts, map_map]
    rfl
  have hnodup : (texts.map Prod.fst).Nodup := hkeys ▸ nodup_textNames r
  generalize hx : normal (listShape r.activityList) (.obj (textFields texts)) = x
  have htell : ∀ p ∈ r.texts o, Doc.str (Api.textOf x p.1) = p.2 := by
    intro p hp
    rw [htexts, mem_map] at hp
    obtain ⟨q, hq, rfl⟩ := hp
    rw [← hx, textOf_normal_textFields hnodup (fun q hq => field?_textNames (hkeys ▸ mem_map_of_mem hq)) hq]
  have honly : ∀ p ∈ x.fieldsOf, p.1 ∈ r.textNames := by
    intro p hp
    rw [← hx] at hp
    rw [← hkeys]
    exact (keys_textFields_sublist texts).subset (mem_keys_of_mem_normal hp)
  refine ⟨?_, ?_, honly⟩
  · calc (r.partNames.map fun k => Doc.str (Api.textOf x k))
        = (r.partNames.zip o.parts).map fun p => Doc.str (Api.textOf x p.1) := by
          conv_lhs => rw [← map_fst_zip (length_partNames h).le]
          rw [map_map]
          rfl
      _ = (r.partNames.zip o.parts).map Prod.snd :=
          map_congr_left fun p hp => htell p (mem_append_left _ hp)
      _ = o.parts := map_snd_zip (length_partNames h).ge
  · by_cases hmode : r.mode = ""
    · have hnone : x.field? "mode" = none := by
        have hnotMem : "mode" ∉ r.textNames := by
          cases r <;> first | decide | exact absurd hmode (by decide)
        cases x with
        | obj fs =>
          refine lookup_eq_none_iff.2 fun p hp => ?_
          simpa using fun h : "mode" = p.1 => hnotMem (h ▸ honly p hp)
        | _ => rfl
      rw [Api.textOf, hnone, hmode]
      rfl
    · have hmem : ("mode", Doc.str r.mode) ∈ r.texts o :=
        mem_append_right _ (by simp [hmode])
      exact Doc.str.inj (htell _ hmem)

theorem eq_of_null_mem_parts {fields : List (String × Doc)} (h : observe r fields = .ok (some o))
    (hnull : .null ∈ o.parts) : r = .sensitiveOperation ∧ ∃ user command, o = .operation user command .null := by
  obtain ⟨hshows, -, hparts⟩ := spec_of_observe h
  obtain ⟨user, command, rfl⟩ := (hparts _ hnull).1 rfl
  refine ⟨?_, user, command, rfl⟩
  cases r <;> first | rfl | cases hshows

/-! ## The observations of a run -/

def Findings.observations (f : Findings) : List (Rule × Observation) :=
  f.flatMap fun p => p.2.map fun o => (p.1, o)

theorem mem_observations {f : Findings} : (r, o) ∈ f.observations ↔ ∃ p ∈ f, p.1 = r ∧ o ∈ p.2 := by
  simp [Findings.observations]

namespace Collection

/-- No observation of a run stands twice under a rule. -/
def NoRepeats (c : Collection) : Prop := ∀ k r xs, c.under k r = some xs → xs.Nodup

theorem nodup_insertNew {xs : List Observation} (h : xs.Nodup) {x : Observation}
    (hx : x.same x = true) : (insertNew xs x).Nodup := by
  rw [insertNew]
  split
  case isTrue => exact h
  case isFalse hnone =>
    have hnotMem : x ∉ xs := fun hmem => hnone (any_eq_true.2 ⟨x, hmem, hx⟩)
    exact h.append (nodup_singleton x) (by simpa using hnotMem)

theorem NoRepeats.note {c : Collection} (h : c.NoRepeats) {n : Notice}
    (hself : ∀ o, n.seen = some o → o.same o = true) : (c.note n).NoRepeats := by
  intro k r xs hxs
  rw [Collection.note, under_file] at hxs
  split at hxs
  case isFalse => exact h k r xs hxs
  case isTrue =>
    have hold : ((c.under n.run n.rule).getD []).Nodup := by
      cases hunder : c.under n.run n.rule with
      | none => exact nodup_nil
      | some ys => exact h _ _ ys hunder
    obtain rfl := Option.some.inj hxs
    cases hseen : n.seen with
    | none => exact hold
    | some o => exact nodup_insertNew hold (hself o hseen)

theorem noRepeats_collect {alerts : List Doc} {c : Collection} (h : collect alerts = .ok c) : c.NoRepeats := by
  have hempty : NoRepeats [] := fun k r xs hxs => by simp [under] at hxs
  refine foldlM_invariant NoRepeats (fun a _ b b' hb hadd => ?_) hempty h
  rw [add_eq] at hadd
  obtain ⟨n, hn, rfl⟩ := map_eq_ok_iff.1 hadd
  cases n with
  | none => exact hb
  | some n =>
    obtain ⟨_, _, -, -, hobserve⟩ := observe_of_notice? hn
    exact hb.note fun o ho => same_self_of_observe (ho ▸ hobserve)

end Collection

section Collected

variable {alerts : List Doc} {c : Collection} (hc : collect alerts = .ok c) {p : Run × Findings}
  (hp : p ∈ c)

include hc hp

theorem nodup_observations : p.2.observations.Nodup := by
  have htidy := Collection.tidy_collect hc
  have hlists : ∀ q ∈ p.2, q.2.Nodup := fun q hq =>
    Collection.noRepeats_collect hc _ _ _ (htidy.under_of_mem hp hq)
  have hrules : (Table.keys p.2).Nodup := htidy.rules p hp
  refine nodup_flatMap.2 ⟨fun q hq => ?_, ?_⟩
  · exact (hlists q hq).map fun _ _ h => (Prod.mk.inj h).2
  · refine (pairwise_map.1 hrules).imp fun hne => ?_
    intro v hv hw
    obtain ⟨_, -, rfl⟩ := mem_map.1 hv
    obtain ⟨_, -, h⟩ := mem_map.1 hw
    exact hne (Prod.mk.inj h).1.symm

theorem mem_observations_iff (hplain : ∀ a ∈ alerts, plainFields a = true) (r : Rule)
    (o : Observation) : (r, o) ∈ p.2.observations ↔ ⟨p.1, r, some o⟩ ∈ notices alerts := by
  rw [mem_observations]
  constructor
  · rintro ⟨q, hq, rfl, ho⟩
    exact mem_notices_of_kept hc hp hq ho
  · intro hn
    obtain ⟨xs, hxs, hany⟩ := (covers_collect hc).told _ hn
    obtain ⟨y, hy, hsame⟩ := any_eq_true.1 (hany o rfl)
    have hq := (Collection.tidy_collect hc).mem_of_under hp hxs
    have hy' := mem_notices_of_kept hc hp hq hy
    obtain ⟨a, ha, hnotice⟩ := hy'
    obtain rfl : y = o := Observation.eq_of_same (shows_of_mem_notices ⟨a, ha, hnotice⟩ rfl)
      (shows_of_mem_notices hn rfl) (isPlain_of_notice? (hplain a ha) hnotice rfl) hsame
    exact ⟨_, hq, rfl, hy⟩

theorem shows_of_mem_observations {v : Rule × Observation} (hv : v ∈ p.2.observations) : v.1.shows v.2 = true := by
  obtain ⟨q, hq, hrule, ho⟩ := mem_observations.1 hv
  exact hrule ▸ shows_of_mem_notices (mem_notices_of_kept hc hp hq ho) rfl

theorem activity_of_mem_observations (hplain : ∀ a ∈ alerts, plainFields a = true)
    {v : Rule × Observation} (hv : v ∈ p.2.observations) :
    (∃ a, activity v.1 v.2 = .ok a) ∨ (∃ user command, v = (.sensitiveOperation, .operation user command .null)) ∧
        activity v.1 v.2 = .error (.cause .wrongType) := by
  obtain ⟨a, ha, hn⟩ := (mem_observations_iff hc hp hplain v.1 v.2).1 hv
  rcases activity_cases (shows_of_mem_observations hc hp hv) with ⟨-, hok⟩ | ⟨⟨d, hd, hnone⟩, herror⟩
  · exact .inl hok
  · have hnull : d = .null := by
      have hd' := isPlain_of_notice? (hplain a ha) hn rfl d hd
      cases d with
      | null => rfl
      | str s => exact absurd rfl (hnone s)
      | _ => cases hd'
    obtain ⟨_, _, -, -, hobserve⟩ := observe_of_notice? hn
    obtain ⟨hrule, user, command, ho⟩ := eq_of_null_mem_parts hobserve (hnull ▸ hd)
    exact .inr ⟨⟨user, command, Prod.ext hrule ho⟩, herror⟩

end Collected

theorem activities_eq_mapM (f : Findings) :
    activities f = f.observations.mapM fun v => do return (v.1.activityList, ← activity v.1 v.2) := by
  rw [activities, Findings.observations]
  induction f with
  | nil => rfl
  | cons p f ih =>
    rw [flatMap_cons, mapM_append, mapM_map, ← ih, mapM_cons]
    simp only [bind_assoc, pure_bind, flatten_cons]
    rfl

/-- The lists of a report hold one activity for each observation under their rules, in order. -/
theorem forall₂_depicts_activitiesIn {asRoot : Bool} {f : Findings}
    (hshows : ∀ v ∈ f.observations, v.1.shows v.2 = true) {d : Doc} (h : report asRoot f = .ok d)
    {l : String} (hl : l ∈ activityLists) :
    List.Forall₂ (fun v x => Depicts v.1 v.2 x)
      (f.observations.filter fun v => v.1.activityList == l) (Survey.activitiesIn d l) := by
  have hshows' : ∀ p ∈ f, ∀ o ∈ p.2, p.1.shows o = true := fun p hp o ho =>
    hshows (p.1, o) (mem_observations.2 ⟨p, hp, rfl, ho⟩)
  obtain ⟨-, found, hfound, hlists⟩ := activitiesIn_report hshows' h
  rw [activities_eq_mapM, mapM_eq_ok_iff] at hfound
  have hkept : List.Forall₂ (fun v q => ∃ a, activity v.1 v.2 = .ok a ∧ q = (v.1.activityList, a))
      (f.observations.filter fun v => v.1.activityList == l) (found.filter fun q => q.1 == l) := by
    refine rel_filter ?_ (hfound.imp fun v q hq => listed_eq_ok_iff.1 hq)
    rintro v q ⟨a, -, rfl⟩
    exact Iff.rfl
  have hmem : ∀ v ∈ f.observations.filter fun v => v.1.activityList == l,
      v.1.shows v.2 = true ∧ v.1.activityList = l := by
    intro v hv
    obtain ⟨hv, hlist⟩ := mem_filter.1 hv
    exact ⟨hshows v hv, by simpa using hlist⟩
  rw [hlists l hl, forall₂_map_right_iff, forall₂_map_right_iff]
  refine ((forall₂_and_left _ _).2 ⟨hmem, hkept⟩).imp ?_
  rintro v q ⟨⟨hv, rfl⟩, a, ha, rfl⟩
  exact depicts_of_activity hv ha

/-- Let all output fields of a stream of alerts be texts or null, and let the stream be collected. The
observations of a run under each rule are those that the alerts tell, each once. If one of them is a sensitive
operation without its system call, no report on the run can be made. Otherwise there is a report, whose lists
hold one activity for each observation under their rules, in order, and nothing else. -/
theorem report_of_plain_alerts {alerts : List Doc} (hplain : ∀ a ∈ alerts, plainFields a = true)
    {c : Collection} (hc : collect alerts = .ok c) {p : Run × Findings} (hp : p ∈ c) :
    (p.2.observations.Nodup ∧ ∀ r o, (r, o) ∈ p.2.observations ↔ ⟨p.1, r, some o⟩ ∈ notices alerts) ∧
    ((∃ user command, (.sensitiveOperation, .operation user command .null) ∈ p.2.observations) →
      report p.1.asRoot p.2 = .error (.cause .wrongType)) ∧
    ((¬ ∃ user command, (.sensitiveOperation, .operation user command .null) ∈ p.2.observations) →
      ∃ d, report p.1.asRoot p.2 = .ok d ∧ Survey.IsReport d ∧ ∀ l ∈ activityLists,
        List.Forall₂ (fun v x => Depicts v.1 v.2 x)
          (p.2.observations.filter fun v => v.1.activityList == l) (Survey.activitiesIn d l)) := by
  have hcases := fun v hv => activity_of_mem_observations hc hp hplain (v := v) hv
  refine ⟨⟨nodup_observations hc hp, mem_observations_iff hc hp hplain⟩, ?_, fun hnone => ?_⟩
  · rintro ⟨user, command, hv⟩
    have hlacks : activity .sensitiveOperation (.operation user command .null) = .error (.cause .wrongType) := by
      rcases activity_cases (r := .sensitiveOperation) (o := .operation user command .null) rfl with
        ⟨htexts, -⟩ | ⟨-, herror⟩
      · obtain ⟨s, hs⟩ := htexts .null (by simp [Observation.parts])
        cases hs
      · exact herror
    have hactivities : activities p.2 = .error (.cause .wrongType) := by
      rw [activities_eq_mapM]
      refine mapM_eq_error (fun v hv => ?_) ⟨_, hv, by rw [hlacks]; rfl⟩
      rcases hcases v hv with ⟨a, ha⟩ | ⟨-, herror⟩
      · exact .inl ⟨_, listed_eq_ok_iff.2 ⟨a, ha, rfl⟩⟩
      · exact .inr (by rw [herror]; rfl)
    rw [report, hactivities, error_bind]
  · have hall : ∀ q ∈ p.2, ∀ o ∈ q.2, ∃ a, activity q.1 o = .ok a := by
      intro q hq o ho
      have hv : (q.1, o) ∈ p.2.observations := mem_observations.2 ⟨q, hq, rfl, ho⟩
      rcases hcases _ hv with hok | ⟨⟨user, command, heq⟩, -⟩
      · exact hok
      · exact absurd ⟨user, command, heq ▸ hv⟩ hnone
    obtain ⟨d, hd⟩ := (report_isOk_iff p.1.asRoot p.2).2 hall
    refine ⟨d, hd, (report_of_collect hc hp hd).1, fun l hl => ?_⟩
    exact forall₂_depicts_activitiesIn (fun v hv => shows_of_mem_observations hc hp hv) hd hl

/-- The alert that a user did a sensitive operation, with its system call or without. -/
def operationAlert (container : String) (call : Option String) : Doc := .obj [
  ("rule", .str "sensitive_operation"),
  ("output_fields", .obj ([("container.name", Doc.str container), ("user.name", .str "root"),
    ("proc.cmdline", .str "su")] ++ call.toList.map fun s => ("evt.type", Doc.str s)))]

/-- Alerts without a system call can be collected, but no report on the run can be made. -/
theorem report_of_operation_without_call : plainFields (operationAlert "foo..1.0..d" none) = true ∧
      ∃ c, collect [operationAlert "foo..1.0..d" none] = .ok c ∧
        ∃ p ∈ c, report p.1.asRoot p.2 = .error (.cause .wrongType) :=
  ⟨rfl, _, rfl, _, mem_singleton_self _, rfl⟩

/-- Of two runs only the one whose alerts name the system call has a report. -/
theorem report_of_plain_alerts_two_runs :
    let alerts := [operationAlert "foo..1.0..d" (some "setuid"), operationAlert "bar..2.0..d" none,
      readAlert "foo..1.0..d" (some "/etc/passwd"), operationAlert "foo..1.0..d" (some "setuid")]
    (∀ a ∈ alerts, plainFields a = true) ∧ ∃ c, collect alerts = .ok c ∧
      ∃ foo ∈ c, ∃ bar ∈ c, report bar.1.asRoot bar.2 = .error (.cause .wrongType) ∧
        ∃ d, report foo.1.asRoot foo.2 = .ok d ∧ (Survey.activitiesIn d "sensitive_activities").length = 1 ∧
          (Survey.activitiesIn d "file_activities").length = 1 := by
  intro alerts
  have hplain : ∀ a ∈ alerts, plainFields a = true := by decide
  have hc : collect alerts = .ok [(⟨"foo", some "1.0", false⟩,
          [(.sensitiveOperation, [.operation (.str "root") (.str "su") (.str "setuid")]),
            (.readFile, [.target (.str "/etc/passwd")])]),
        (⟨"bar", some "2.0", false⟩, [(.sensitiveOperation, [.operation (.str "root") (.str "su") .null])])] := rfl
  obtain ⟨-, -, hreport⟩ := report_of_plain_alerts hplain hc mem_cons_self
  obtain ⟨-, hmissing, -⟩ :=
    report_of_plain_alerts hplain hc (mem_cons_of_mem _ mem_cons_self)
  obtain ⟨d, hd, -, hlists⟩ := hreport (by
    rintro ⟨user, command, hmem⟩
    simp [Findings.observations] at hmem)
  have hsensitive := (hlists "sensitive_activities" (by decide)).length_eq
  have hfiles := (hlists "file_activities" (by decide)).length_eq
  exact ⟨hplain, _, hc, _, mem_cons_self, _, mem_cons_of_mem _ mem_cons_self,
    hmissing ⟨_, _, mem_singleton_self _⟩, d, hd, hsensitive.symm, hfiles.symm⟩

end Alert

end Vetting
